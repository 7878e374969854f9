import LsServer.Lib.Graph
import Mathlib.Data.Finset.Card

/-!
# Depth-first search

The search marks a vertex when it meets it, before it goes on from there, and goes on from every
vertex at most once. It turns back at the depths where `cut` holds.

`visitAll` is the loop over the successors and `dfs` the recursion. They are apart because a program
often has its loop inside its recursion, and then has to be compared with both. `dfs` gets the
vertices that have been met as a list, last one first, and returns the longer list.

The fuel of `dfs` bounds how many calls are nested. Each call has met one vertex more than the one
around it, so the number of vertices is fuel enough (`unseen`, `dfs_finished`).

Results:
* `subset_dfs`, `dfs_induction`: what has been met stays, and nothing else than successors is met;
* `mem_dfs_iff`: a search that is not cut off meets what can be reached.
-/

namespace LsServer.Lib

variable {ν : Type} [DecidableEq ν]

/-- Visits the vertices that have not been met, one after the other. -/
def visitAll (visit : ν → List ν → List ν) : List ν → List ν → List ν
  | [], seen => seen
  | c :: cs, seen => visitAll visit cs (if c ∈ seen then seen else visit c (c :: seen))

/-- What has been met after the search has gone on from `a`; at most `n` calls are nested. -/
def dfs (succs : ν → List ν) (cut : Nat → Bool) : Nat → Nat → ν → List ν → List ν
  | 0, _, _, seen => seen
  | n + 1, depth, a, seen =>
    if cut depth then seen else visitAll (dfs succs cut n (depth + 1)) (succs a) seen

variable {visit : ν → List ν → List ν} {succs : ν → List ν} {cut : Nat → Bool}

theorem subset_visitAll (h : ∀ c seen, seen ⊆ visit c seen) (cs seen : List ν) :
    seen ⊆ visitAll visit cs seen := by
  induction cs generalizing seen with
  | nil => exact List.Subset.refl _
  | cons c cs ih =>
    rw [visitAll]
    split
    · exact ih seen
    · exact List.Subset.trans (List.subset_cons_self c seen) (List.Subset.trans (h c _) (ih _))

theorem subset_dfs (n depth : Nat) (a : ν) (seen : List ν) :
    seen ⊆ dfs succs cut n depth a seen := by
  induction n generalizing depth a seen with
  | zero => exact List.Subset.refl _
  | succ n ih =>
    rw [dfs]
    split
    · exact List.Subset.refl _
    · exact subset_visitAll (ih (depth + 1)) _ _

theorem dfs_of_nil {a : ν} (h : succs a = []) (n depth : Nat) (seen : List ν) :
    dfs succs cut n depth a seen = seen := by
  cases n with
  | zero => rfl
  | succ n =>
    rw [dfs, h]
    split <;> rfl

variable {P : ν → Prop}

theorem visitAll_induction (h : ∀ c seen, P c → (∀ x ∈ seen, P x) → ∀ x ∈ visit c seen, P x)
    {cs seen : List ν} (hcs : ∀ c ∈ cs, P c) (hseen : ∀ x ∈ seen, P x) :
    ∀ x ∈ visitAll visit cs seen, P x := by
  induction cs generalizing seen with
  | nil => exact hseen
  | cons c cs ih =>
    obtain ⟨hc, hcs⟩ := List.forall_mem_cons.mp hcs
    rw [visitAll]
    split
    · exact ih hcs hseen
    · exact ih hcs (h c _ hc (List.forall_mem_cons.mpr ⟨hc, hseen⟩))

/-- What holds of `a` and goes over to successors holds of all that is met. -/
theorem dfs_induction (hstep : ∀ a, P a → ∀ c ∈ succs a, P c) {n depth : Nat} {a : ν}
    {seen : List ν} (ha : P a) (hseen : ∀ x ∈ seen, P x) :
    ∀ x ∈ dfs succs cut n depth a seen, P x := by
  induction n generalizing depth a seen with
  | zero => exact hseen
  | succ n ih =>
    rw [dfs]
    split
    · exact hseen
    · exact visitAll_induction (fun c seen hc hseen => ih hc hseen) (hstep a ha) hseen

/-! ## Completeness -/

/-- How many vertices of `U` are left. -/
def left (U : Finset ν) (met : ν → Bool) : Nat := (U.filter fun x => met x = false).card

omit [DecidableEq ν] in
theorem filter_left {U : Finset ν} {met met' : ν → Bool} (h : ∀ x, met x = true → met' x = true) :
    (U.filter fun x => met' x = false) ⊆ U.filter fun x => met x = false := by
  refine Finset.monotone_filter_right U fun x _ hx => Bool.eq_false_iff.mpr fun hmet => ?_
  exact absurd (h x hmet) (by rw [hx]; simp)

omit [DecidableEq ν] in
theorem left_mono {U : Finset ν} {met met' : ν → Bool} (h : ∀ x, met x = true → met' x = true) :
    left U met' ≤ left U met :=
  Finset.card_le_card (filter_left h)

omit [DecidableEq ν] in
/-- One vertex more has been met. -/
theorem left_lt {U : Finset ν} {met met' : ν → Bool} (h : ∀ x, met x = true → met' x = true)
    {c : ν} (hc : c ∈ U) (hnot : met c = false) (hmet : met' c = true) :
    left U met' < left U met := by
  refine Finset.card_lt_card ⟨filter_left h, fun hsub => ?_⟩
  have hin := (Finset.mem_filter.mp (hsub (Finset.mem_filter.mpr ⟨hc, hnot⟩))).2
  exact absurd hmet (by rw [hin]; simp)

/-- How many vertices of `U` have not been met. -/
def unseen (U : Finset ν) (seen : List ν) : Nat := left U fun x => x ∈ seen

theorem unseen_cons {U : Finset ν} {seen : List ν} {c : ν} (hc : c ∈ U) (h : c ∉ seen) :
    unseen U (c :: seen) < unseen U seen := by
  refine left_lt (fun x hx => ?_) hc (decide_eq_false h) (decide_eq_true (List.mem_cons_self ..))
  exact decide_eq_true (List.mem_cons_of_mem c (of_decide_eq_true hx))

theorem unseen_mono {U : Finset ν} {seen seen' : List ν} (h : seen ⊆ seen') :
    unseen U seen' ≤ unseen U seen :=
  left_mono fun _ hx => decide_eq_true (h (of_decide_eq_true hx))

/-- From what has been met on the way from `seen` to `out` the search has gone on. -/
def Finished (succs : ν → List ν) (seen out : List ν) : Prop :=
  ∀ x ∈ out, x ∉ seen → succs x ⊆ out

theorem visitAll_finished {U : Finset ν} {n : Nat} (hmono : ∀ c seen, seen ⊆ visit c seen)
    (hvisit : ∀ c seen, c ∈ U → unseen U seen < n →
      succs c ⊆ visit c seen ∧ Finished succs seen (visit c seen))
    {cs seen : List ν} (hcs : ∀ c ∈ cs, c ∈ U) (hseen : unseen U seen ≤ n) :
    cs ⊆ visitAll visit cs seen ∧ Finished succs seen (visitAll visit cs seen) := by
  induction cs generalizing seen with
  | nil => exact ⟨List.nil_subset _, fun x hx hnot => absurd hx hnot⟩
  | cons c cs ih =>
    obtain ⟨hc, hcs⟩ := List.forall_mem_cons.mp hcs
    rw [visitAll]
    split
    · rename_i hmem
      obtain ⟨hsub, hfin⟩ := ih hcs hseen
      exact ⟨List.cons_subset.mpr ⟨subset_visitAll hmono cs seen hmem, hsub⟩, hfin⟩
    · rename_i hnot
      have hlt := (unseen_cons hc hnot).trans_le hseen
      obtain ⟨hsucc, hdone⟩ := hvisit c (c :: seen) hc hlt
      obtain ⟨hsub, hfin⟩ := ih hcs ((unseen_mono (hmono c (c :: seen))).trans hlt.le)
      have hkeep := subset_visitAll hmono cs (visit c (c :: seen))
      refine ⟨List.cons_subset.mpr ⟨hkeep (hmono c _ (List.mem_cons_self ..)), hsub⟩,
        fun x hx hxnot => ?_⟩
      -- `x` is met after the visit of `c`, in it, or is `c`
      by_cases hin : x ∈ visit c (c :: seen)
      · rcases eq_or_ne x c with rfl | hne
        · exact List.Subset.trans hsucc hkeep
        · exact List.Subset.trans (hdone x hin (by simp [hne, hxnot])) hkeep
      · exact hfin x hx hin

/-- The search goes on from everything, if it is not cut off and may nest deep enough. -/
theorem dfs_finished {U : Finset ν} (hU : ∀ a ∈ U, ∀ c ∈ succs a, c ∈ U)
    (hcut : ∀ depth, cut depth = false) {n : Nat} (depth : Nat) {a : ν} {seen : List ν}
    (ha : a ∈ U) (hseen : unseen U seen < n) :
    succs a ⊆ dfs succs cut n depth a seen ∧
      Finished succs seen (dfs succs cut n depth a seen) := by
  induction n generalizing depth a seen with
  | zero => exact absurd hseen (Nat.not_lt_zero _)
  | succ n ih =>
    rw [dfs, if_neg (by rw [hcut]; simp)]
    exact visitAll_finished (subset_dfs n (depth + 1)) (fun c seen => ih (depth + 1)) (hU a ha)
      (Nat.le_of_lt_succ hseen)

/-- **The search meets exactly the vertices that are reached**, if it is not cut off. -/
theorem mem_dfs_iff {κ : Type} {E : ν → κ → ν → Prop} (hE : ∀ a c, c ∈ succs a ↔ Edge E a c)
    {U : Finset ν} (hU : ∀ a ∈ U, ∀ c ∈ succs a, c ∈ U) (hcut : ∀ depth, cut depth = false)
    {r : ν} (hr : r ∈ U) {n : Nat} (hn : U.card ≤ n) (depth : Nat) (x : ν) :
    x ∈ dfs succs cut n depth r [r] ↔ Reaches E r x := by
  constructor
  · refine dfs_induction (P := Reaches E r) (fun a ha c hc => ha.tail ((hE a c).mp hc)) .refl
      (List.forall_mem_singleton.mpr .refl) x
  · intro h
    have hlt : unseen U [r] < n := by
      refine lt_of_lt_of_le (unseen_cons hr List.not_mem_nil) (le_trans ?_ hn)
      exact Finset.card_filter_le _ _
    obtain ⟨hsucc, hfin⟩ := dfs_finished hU hcut depth hr hlt
    refine h.closed (P := (· ∈ dfs succs cut n depth r [r]))
      (subset_dfs n depth r [r] (List.mem_singleton_self r)) fun x k y hx e => ?_
    have hy := (hE x y).mpr ⟨k, e⟩
    rcases eq_or_ne x r with rfl | hne
    · exact hsucc hy
    · exact hfin x hx (by simp [hne]) hy

end LsServer.Lib
