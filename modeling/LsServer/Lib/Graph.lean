import Mathlib.Data.Set.Card
import Mathlib.Logic.Relation

/-!
# Labelled graphs

`E x k y` is an edge from `x` to `y` with label `k`. `Along E r p x` is a path from `r` to `x` whose
edges have the labels `p`.

A path is a list of labels, so two paths to a vertex can differ in their labels although they meet
the same vertices. `Acyclic` is a condition on what is reached from one vertex; the rest of the
graph may have cycles.

`Pops` is a step of a program that keeps a stack of work: the top is taken, and some of its
successors are pushed. Nothing is said about which and how often, so a vertex that is shared is met
once for each path. Such a program ends because its steps are well founded (`acc_pops`), without a
bound that could be computed beforehand.

Results:
* `Along.unique`: where no edge leads to `r` and at most one to any other vertex, a vertex is
  reached on one path only;
* `acc_of_acyclic`: a finite graph without cycles has no infinite path;
* `acc_pops`: then a stack from which a vertex is taken and its successors are put back gets empty.

`acyclic_of_lt` is for concrete graphs: edges that only lead to larger numbers.
-/

namespace LsServer.Lib

variable {ν κ : Type} {E : ν → κ → ν → Prop} {r x y : ν}

/-- Some label leads from `x` to `y`. -/
def Edge (E : ν → κ → ν → Prop) (x y : ν) : Prop := ∃ k, E x k y

/-- `x` is reached from `r`. -/
def Reaches (E : ν → κ → ν → Prop) (r x : ν) : Prop := Relation.ReflTransGen (Edge E) r x

/-- Nothing that is reached from `r` reaches itself again. -/
def Acyclic (E : ν → κ → ν → Prop) (r : ν) : Prop :=
  ∀ x, Reaches E r x → ¬ Relation.TransGen (Edge E) x x

/-- A path with its labels, first to last. -/
inductive Along (E : ν → κ → ν → Prop) (r : ν) : List κ → ν → Prop
  | nil : Along E r [] r
  | snoc {p : List κ} {x y : ν} {k : κ} (h : Along E r p x) (e : E x k y) : Along E r (p ++ [k]) y

theorem Along.reaches {p : List κ} (h : Along E r p x) : Reaches E r x := by
  induction h with
  | nil => exact .refl
  | snoc _ e ih => exact ih.tail ⟨_, e⟩

theorem Reaches.closed {P : ν → Prop} (h : Reaches E r x) (h0 : P r)
    (hstep : ∀ x k y, P x → E x k y → P y) : P x := by
  induction h with
  | refl => exact h0
  | tail _ e ih =>
    obtain ⟨k, e⟩ := e
    exact hstep _ k _ ih e

/-- **One path to each vertex**, if at most one edge leads to it and none to `r`. -/
theorem Along.unique (hroot : ∀ x k, Reaches E r x → ¬ E x k r)
    (hparent : ∀ x y k l z, Reaches E r x → Reaches E r y → E x k z → E y l z → x = y ∧ k = l)
    {p q : List κ} (hp : Along E r p x) (hq : Along E r q x) : p = q := by
  induction hp generalizing q with
  | nil =>
    cases hq with
    | nil => rfl
    | snoc h e => exact absurd e (hroot _ _ h.reaches)
  | snoc h e ih =>
    cases hq with
    | nil => exact absurd e (hroot _ _ h.reaches)
    | snoc h' e' =>
      obtain ⟨rfl, rfl⟩ := hparent _ _ _ _ _ h.reaches h'.reaches e e'
      rw [ih h']

/-- **No infinite path** in a finite graph without cycles. -/
theorem acc_of_acyclic (hfin : {x | Reaches E r x}.Finite) (h : Acyclic E r) :
    Acc (fun y x => Edge E x y) r := by
  induction hn : {x | Reaches E r x}.ncard using Nat.strong_induction_on generalizing r with
  | _ n ih =>
    refine Acc.intro r fun c hc => ?_
    have hsub : {x | Reaches E c x} ⊆ {x | Reaches E r x} := fun x hx => hx.head hc
    have hr : r ∉ {x | Reaches E c x} := fun hx => h r .refl (.head' hc hx)
    have hlt : {x | Reaches E c x}.ncard < {x | Reaches E r x}.ncard :=
      Set.ncard_lt_ncard ⟨hsub, fun hsup => hr (hsup .refl)⟩ hfin
    exact ih _ (hn ▸ hlt) (hfin.subset hsub) (fun x hx => h x (hsub hx)) rfl

/-- One step with a stack of vertices, its top first: some successors take the place of the top. -/
def Pops (E : ν → κ → ν → Prop) (l' l : List ν) : Prop :=
  ∃ a cs rest, l = a :: rest ∧ l' = cs ++ rest ∧ ∀ c ∈ cs, Edge E a c

theorem acc_pops_cons {a : ν} (ha : Acc (fun y x => Edge E x y) a) {rest : List ν}
    (h : Acc (Pops E) rest) : Acc (Pops E) (a :: rest) := by
  induction ha generalizing rest with
  | intro a _ ih =>
    refine Acc.intro _ fun l' hl' => ?_
    obtain ⟨a', cs, rest', heq, rfl, hcs⟩ := hl'
    obtain ⟨rfl, rfl⟩ := List.cons.inj heq
    -- the successors, one on top of the other
    induction cs with
    | nil => exact h
    | cons c cs ihcs =>
      obtain ⟨hc, hcs⟩ := List.forall_mem_cons.mp hcs
      exact ih c hc (ihcs hcs)

/-- **The stack gets empty.** -/
theorem acc_pops {l : List ν} (h : ∀ a ∈ l, Acc (fun y x => Edge E x y) a) : Acc (Pops E) l := by
  induction l with
  | nil =>
    refine Acc.intro _ fun l' hl' => ?_
    obtain ⟨a, cs, rest, heq, -⟩ := hl'
    exact absurd heq (by simp)
  | cons a l ih =>
    obtain ⟨ha, hl⟩ := List.forall_mem_cons.mp h
    exact acc_pops_cons ha (ih hl)

/-- Edges that only lead to greater numbers form no cycle. -/
theorem acyclic_of_lt {E : Nat → κ → Nat → Prop} (h : ∀ x k y, E x k y → x < y) (r : Nat) :
    Acyclic E r := by
  have hlt : ∀ x y, Relation.TransGen (Edge E) x y → x < y := by
    intro x y hxy
    induction hxy with
    | single e =>
      obtain ⟨k, e⟩ := e
      exact h _ k _ e
    | tail _ e ih =>
      obtain ⟨k, e⟩ := e
      exact ih.trans (h _ k _ e)
  exact fun x _ hx => Nat.lt_irrefl x (hlt x x hx)

end LsServer.Lib
