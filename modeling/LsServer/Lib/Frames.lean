import Mathlib.Data.List.Basic

/-!
# Frames of a stream

A `Reader` takes a frame off the front of a stream, or finds that the stream ends inside one. What
it finds does not change when more arrives (`stable`), and it always takes something (`shrinks`). So
a stream has its `frames` and a rest, and it does not matter in which pieces the stream arrives.

* `read text = some (b, rest)`: a frame `b` is at the front of `text`, and `rest` behind it.
* `read text = none`: what is there is not a whole frame yet. It says nothing about a text that no
  frame can begin with; a reader that has such texts would need a third answer.

With `stable` alone a reader could return a frame again and again; `shrinks` makes `frames` end. The
rest of a stream is what a program keeps until more arrives, so a loop that reads pieces is right if
its frames and its rest are those of the stream (`frames_append`).

Results:
* `frames_append`: the frames of a stream in two parts;
* `frames_encoded`: frames come out as they were encoded.
-/

namespace LsServer.Lib

/-- `read` takes a frame off the front of a stream. -/
structure Reader (α β : Type) where
  read : List α → Option (β × List α)
  stable : ∀ {text rest : List α} {b : β} (more : List α), read text = some (b, rest) →
    read (text ++ more) = some (b, rest ++ more)
  shrinks : ∀ {text rest : List α} {b : β}, read text = some (b, rest) →
    rest.length < text.length

namespace Reader

variable {α β : Type} (r : Reader α β)

/-- The frames of a stream, and the rest, in which there is none. -/
def frames (text : List α) : List β × List α :=
  match _h : r.read text with
  | none => ([], text)
  | some x => (x.1 :: (frames x.2).1, (frames x.2).2)
termination_by text.length
decreasing_by all_goals exact r.shrinks ‹_›

variable {r}

theorem frames_none {text : List α} (h : r.read text = none) : r.frames text = ([], text) := by
  rw [frames]
  split
  · rfl
  · rename_i x hx
    exact absurd (h.symm.trans hx) (by simp)

theorem frames_some {text rest : List α} {b : β} (h : r.read text = some (b, rest)) :
    r.frames text = (b :: (r.frames rest).1, (r.frames rest).2) := by
  rw [frames]
  split
  · rename_i hx
    exact absurd (h.symm.trans hx) (by simp)
  · rename_i x hx
    rw [Option.some.inj (hx.symm.trans h)]

/-- There is no frame in an empty stream. -/
theorem read_nil : r.read [] = none := by
  cases h : r.read [] with
  | none => rfl
  | some x => exact absurd (r.shrinks (show r.read [] = some (x.1, x.2) from h)) (Nat.not_lt_zero _)

@[simp] theorem frames_nil : r.frames [] = ([], []) := frames_none read_nil

/-- **The frames of a stream in two parts.** -/
theorem frames_append (text more : List α) : r.frames (text ++ more) =
    ((r.frames text).1 ++ (r.frames ((r.frames text).2 ++ more)).1,
      (r.frames ((r.frames text).2 ++ more)).2) := by
  induction text using (measure List.length).wf.induction with
  | _ text ih =>
    cases h : r.read text with
    | none => rw [frames_none h, List.nil_append]
    | some x =>
      rw [frames_some (show r.read text = some (x.1, x.2) from h), frames_some (r.stable more h),
        ih x.2 (r.shrinks h)]
      rfl

/-- **Frames come out as they were encoded.** -/
theorem frames_encoded {e : β → List α} {bodies : List β}
    (h : ∀ b ∈ bodies, ∀ rest, r.read (e b ++ rest) = some (b, rest)) (rest : List α) :
    r.frames ((bodies.map e).flatten ++ rest) =
      (bodies ++ (r.frames rest).1, (r.frames rest).2) := by
  induction bodies with
  | nil => rfl
  | cons b bodies ih =>
    rw [List.map_cons, List.flatten_cons, List.append_assoc,
      frames_some (h b (List.mem_cons_self ..) _), ih fun x hx => h x (List.mem_cons_of_mem _ hx)]
    rfl

end Reader

end LsServer.Lib
