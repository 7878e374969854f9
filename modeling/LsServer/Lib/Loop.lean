import Mathlib.Data.List.Basic
import Mathlib.Data.List.Forall2

/-!
# Loops over a list

`foldlM_ok` is the rule for a loop that can stop with an error: an invariant that knows which
elements are done. The body may depend on a parameter `i`, such as the fuel of a recursive call; the
loop then ends in the same state for all `i` that the body ends in the same state for.
`foldlM_appends` is the rule for a loop that writes: every round appends something to what the state
stands for, and what is appended is known from the element alone.

`bind_eq_ok` takes a computation with errors apart, `exists_bound` makes one bound of the bounds of
the elements, and `forall_mem_of_forall₂` forgets one of two lists.

Both rules are about `List.foldlM` in `Except`: the body gets the state and an element, and gives
the next state or stops the loop with an error. `foldlM_ok` says that the loop does not stop, if no
round does from a state that its invariant allows. `foldlM_appends` is told that the loop has ended,
and says what it has written, one piece for each element.
-/

namespace LsServer.Lib

variable {ι α β ε : Type}

/-- **The loop rule.** -/
theorem foldlM_ok {S : ι → Prop} {f : ι → β → α → Except ε β} {I : List α → β → Prop}
    {es : List α} {b : β} (h0 : I [] b)
    (hstep : ∀ done e todo b, es = done ++ e :: todo → I done b →
      ∃ b', (∀ i, S i → f i b e = .ok b') ∧ I (done ++ [e]) b') :
    ∃ b', (∀ i, S i → es.foldlM (f i) b = .ok b') ∧ I es b' := by
  have hrest : ∀ todo done b, es = done ++ todo → I done b →
      ∃ b', (∀ i, S i → todo.foldlM (f i) b = .ok b') ∧ I es b' := by
    intro todo
    induction todo with
    | nil =>
      intro done b hes hI
      rw [List.append_nil] at hes
      exact ⟨b, fun _ _ => rfl, hes ▸ hI⟩
    | cons e todo ih =>
      intro done b hes hI
      obtain ⟨b₁, hb₁, hI₁⟩ := hstep done e todo b hes hI
      obtain ⟨b₂, hb₂, hI₂⟩ := ih (done ++ [e]) b₁ (by rw [hes, List.append_assoc]; rfl) hI₁
      refine ⟨b₂, fun i hi => ?_, hI₂⟩
      rw [List.foldlM_cons, hb₁ i hi]
      exact hb₂ i hi
  exact hrest es [] b rfl h0

/-- What a computation gives that has not stopped with an error. -/
theorem bind_eq_ok {x : Except ε α} {f : α → Except ε β} {b : β} :
    x >>= f = .ok b ↔ ∃ a, x = .ok a ∧ f a = .ok b := by
  cases x <;> simp [Bind.bind, Except.bind]

theorem isOk_iff {x : Except ε α} : x.isOk = true ↔ ∃ a, x = .ok a := by
  cases x <;> simp [Except.isOk, Except.toBool]

/-- **The rule for a loop that writes.** -/
theorem foldlM_appends {σ γ : Type} {out : σ → List γ} {f : σ → α → Except ε σ}
    {R : α → List γ → Prop} {xs : List α} {s s' : σ} (h : xs.foldlM f s = .ok s')
    (hf : ∀ x ∈ xs, ∀ s s', f s x = .ok s' → ∃ ys, out s' = out s ++ ys ∧ R x ys) :
    ∃ yss, out s' = out s ++ yss.flatten ∧ List.Forall₂ R xs yss := by
  induction xs generalizing s with
  | nil =>
    obtain rfl := Except.ok.inj h
    exact ⟨[], by simp, .nil⟩
  | cons x xs ih =>
    rw [List.foldlM_cons] at h
    obtain ⟨s₁, hx, hxs⟩ := bind_eq_ok.mp h
    obtain ⟨ys, hys, hR⟩ := hf x (List.mem_cons_self ..) s s₁ hx
    obtain ⟨yss, hyss, hall⟩ := ih hxs fun y hy => hf y (List.mem_cons_of_mem _ hy)
    exact ⟨ys :: yss, by rw [hyss, hys, List.flatten_cons, List.append_assoc], .cons hR hall⟩

/-- What the relation says of the second elements alone. -/
theorem forall_mem_of_forall₂ {R : α → β → Prop} {P : β → Prop} {xs : List α} {ys : List β}
    (h : List.Forall₂ R xs ys) (hP : ∀ x y, R x y → P y) : ∀ y ∈ ys, P y := by
  induction h with
  | nil => simp
  | cons hxy _ ih => exact List.forall_mem_cons.mpr ⟨hP _ _ hxy, ih⟩

/-- One bound for all elements. -/
theorem exists_bound {Q : Nat → α → Prop} (hmono : ∀ n k e, n ≤ k → Q n e → Q k e) {es : List α}
    (h : ∀ e ∈ es, ∃ n, Q n e) : ∃ n, ∀ e ∈ es, Q n e := by
  induction es with
  | nil => exact ⟨0, by simp⟩
  | cons e es ih =>
    obtain ⟨⟨n, hn⟩, hes⟩ := List.forall_mem_cons.mp h
    obtain ⟨k, hk⟩ := ih hes
    exact ⟨max n k, List.forall_mem_cons.mpr ⟨hmono _ _ _ (Nat.le_max_left n k) hn,
      fun e' he' => hmono _ _ _ (Nat.le_max_right n k) (hk e' he')⟩⟩

end LsServer.Lib
