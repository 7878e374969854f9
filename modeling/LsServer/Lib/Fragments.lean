import Mathlib.Data.List.Flatten
import Mathlib.Data.List.Perm.Basic
import Mathlib.Logic.Function.Basic

/-!
# Messages in fragments

A `Parcel` is a body that travels under a number, with a label. A small one is a single frame; a
large one is a head, which tells its size, and then parts. Two lists are in flight, each in its
order, and nothing is known about how they mix: small parcels go into the one and large ones into
the other. The receiver puts the parts together in an inbox with one place for each number.

`Flying` says which parcels are on their way. The number of a large one is no other one's.

* `Cut` is what a sender does: which parcels are small, and how long the parts of the others are.
  The last part of a body says that it is the last, so an empty body has one part as well.
* `Pipe` is what is in flight, and the inbox at its end. The head of a parcel makes a place in the
  inbox, every part but the last is kept there, and the last one clears it.
* `Holds` knows a pipe by its parcels: small ones; one that has begun to arrive (`Current`); large
  ones that have not. Only one has begun, since the large ones follow each other in one list.

What the receiver does with a parcel is left open: `Arrives` says what a frame finds in the inbox
and what flies when it has been taken out. Two small parcels may have one number. `Flying` asks that
a large one has its number for itself (`Distinct`), which a sender owes for each parcel it sends.

Results:
* `Flying.send`: a parcel that is sent is on its way;
* `Flying.high`, `Flying.low`: what a frame does when it arrives;
* `Flying.eq_nil`: when both lists are empty, nothing is on its way.

Out of scope: frames that are lost, doubled or changed on the way, and a sender that stops half way
through a parcel.
-/

namespace LsServer.Lib.Fragments

variable {ι α β : Type}

/-- A body, with the number and the label it travels under. -/
structure Parcel (ι α β : Type) where
  id : ι
  label : α
  body : List β
  deriving DecidableEq

inductive Frame (ι α β : Type)
  | whole (p : Parcel ι α β)
  | head (id : ι) (label : α) (size : Nat)
  | part (id : ι) (bytes : List β) (last : Bool)

/-- Pieces of `n` elements, but for the last one. -/
def chunks (n : Nat) (b : List β) : List (List β) :=
  if 0 < n ∧ n < b.length then b.take n :: chunks n (b.drop n) else [b]
termination_by b.length
decreasing_by
  rw [List.length_drop]
  omega

def parts (id : ι) : List (List β) → List (Frame ι α β)
  | [] => []
  | [c] => [.part id c true]
  | c :: cs => .part id c false :: parts id cs

/-- How parcels are cut. -/
structure Cut (ι α β : Type) where
  small : Parcel ι α β → Bool
  size : Nat
  size_pos : 0 < size

def Cut.frames (k : Cut ι α β) (p : Parcel ι α β) : List (Frame ι α β) :=
  if k.small p then [.whole p]
  else .head p.id p.label p.body.length :: parts p.id (chunks k.size p.body)

/-- What has arrived of a large parcel. -/
structure Partial (α β : Type) where
  label : α
  size : Nat
  got : List (List β)

/-- The two lists in flight, and the inbox at their end. -/
structure Pipe (ι α β : Type) where
  high : List (Frame ι α β)
  low : List (Frame ι α β)
  inbox : ι → Option (Partial α β)

/-- A large parcel of which some pieces have arrived. -/
structure Current (ι α β : Type) where
  parcel : Parcel ι α β
  done : List (List β)
  rest : List (List β)
  rest_ne : rest ≠ []
  body_eq : (done ++ rest).flatten = parcel.body

/-- The numbers of large parcels are different from those of the others. -/
def Distinct (k : Cut ι α β) (ps : List (Parcel ι α β)) : Prop :=
  ps.Pairwise fun p q => p.id = q.id → k.small p = true ∧ k.small q = true

theorem chunks_ne_nil (n : Nat) (b : List β) : chunks n b ≠ [] := by
  rw [chunks]
  split <;> simp

theorem flatten_chunks (n : Nat) (b : List β) : (chunks n b).flatten = b := by
  induction b using (measure List.length).wf.induction with
  | _ b ih =>
    rw [chunks]
    split
    · rename_i h
      have hlt : (b.drop n).length < b.length := by
        rw [List.length_drop]
        omega
      rw [List.flatten_cons, ih _ hlt, List.take_append_drop]
    · simp

theorem length_le_of_mem_chunks {n : Nat} (hn : 0 < n) {b c : List β} (h : c ∈ chunks n b) :
    c.length ≤ n := by
  induction b using (measure List.length).wf.induction with
  | _ b ih =>
    rw [chunks] at h
    split at h
    · rename_i hlt
      rcases List.mem_cons.mp h with rfl | h
      · exact List.length_take_le ..
      · refine ih _ ?_ h
        rw [measure, WellFoundedRelation.rel, invImage]
        simp only [InvImage, List.length_drop]
        exact Nat.sub_lt (by omega) hn
    · rename_i hlt
      rw [List.mem_singleton.mp h]
      omega

theorem Distinct.perm {k : Cut ι α β} {ps qs : List (Parcel ι α β)} (h : Distinct k ps)
    (hp : ps.Perm qs) : Distinct k qs :=
  (hp.pairwise_iff fun hpq heq => (hpq heq.symm).symm).mp h

theorem parts_cons (id : ι) (c : List β) {cs : List (List β)} (h : cs ≠ []) :
    (parts id (c :: cs) : List (Frame ι α β)) = .part id c false :: parts id cs := by
  cases cs with
  | nil => exact absurd rfl h
  | cons d ds => rfl

variable [DecidableEq ι]

/-- The inbox while a large parcel arrives. -/
def Current.inbox (c : Option (Current ι α β)) (i : ι) : Option (Partial α β) :=
  c.bind fun c =>
    if c.parcel.id = i then some ⟨c.parcel.label, c.parcel.body.length, c.done⟩ else none

/-- A pipe, by what is in it: small parcels, the one that has begun to arrive, large ones. -/
structure Holds (k : Cut ι α β) (pipe : Pipe ι α β) (smalls : List (Parcel ι α β))
    (current : Option (Current ι α β)) (larges : List (Parcel ι α β)) : Prop where
  high : pipe.high = smalls.map .whole
  low : pipe.low = (current.elim [] fun c => parts c.parcel.id c.rest) ++ larges.flatMap k.frames
  inbox : pipe.inbox = Current.inbox current
  pieces : ∀ c ∈ current, ∀ b ∈ c.rest, b.length ≤ k.size
  small : ∀ p ∈ smalls, k.small p = true
  large : ∀ p ∈ (current.map Current.parcel).toList ++ larges, k.small p = false
  distinct : Distinct k (smalls ++ ((current.map Current.parcel).toList ++ larges))

/-- **The parcels `ps` are on their way.** -/
def Flying (k : Cut ι α β) (pipe : Pipe ι α β) (ps : List (Parcel ι α β)) : Prop :=
  ∃ smalls current larges, Holds k pipe smalls current larges ∧
    ps.Perm (smalls ++ ((current.map Current.parcel).toList ++ larges))

theorem Flying.empty (k : Cut ι α β) : Flying k ⟨[], [], fun _ => none⟩ [] := by
  refine ⟨[], none, [], ⟨rfl, rfl, rfl, ?_, ?_, ?_, List.Pairwise.nil⟩, List.Perm.refl _⟩
  all_goals simp

/-- Sends a parcel. -/
def Pipe.send (k : Cut ι α β) (pipe : Pipe ι α β) (p : Parcel ι α β) : Pipe ι α β :=
  if k.small p then { pipe with high := pipe.high ++ k.frames p }
  else { pipe with low := pipe.low ++ k.frames p }

theorem Flying.distinct {k : Cut ι α β} {pipe : Pipe ι α β} {ps : List (Parcel ι α β)}
    (h : Flying k pipe ps) : Distinct k ps := by
  obtain ⟨smalls, current, larges, hh, hp⟩ := h
  exact hh.distinct.perm hp.symm

/-- **A parcel that is sent is on its way.** -/
theorem Flying.send {k : Cut ι α β} {pipe : Pipe ι α β} {ps : List (Parcel ι α β)}
    (h : Flying k pipe ps) {p : Parcel ι α β}
    (hp : ∀ q ∈ ps, p.id = q.id → k.small p = true ∧ k.small q = true) :
    Flying k (pipe.send k p) (p :: ps) := by
  have hdistinct : Distinct k (p :: ps) := List.pairwise_cons.mpr ⟨hp, h.distinct⟩
  obtain ⟨smalls, current, larges, hh, hperm⟩ := h
  by_cases hsmall : k.small p = true
  · have hnew : (p :: ps).Perm
        ((smalls ++ [p]) ++ ((current.map Current.parcel).toList ++ larges)) := by
      refine (hperm.cons p).trans ?_
      rw [List.append_assoc]
      exact List.perm_middle.symm
    refine ⟨smalls ++ [p], current, larges, ⟨?_, ?_, ?_, hh.pieces, ?_, hh.large,
      hdistinct.perm hnew⟩, hnew⟩
    · simp [Pipe.send, hsmall, hh.high, Cut.frames]
    · simp [Pipe.send, hsmall, hh.low]
    · simp [Pipe.send, hsmall, hh.inbox]
    · intro q hq
      rcases List.mem_append.mp hq with hq | hq
      · exact hh.small q hq
      · rw [List.mem_singleton.mp hq, hsmall]
  · have hnew : (p :: ps).Perm
        (smalls ++ ((current.map Current.parcel).toList ++ (larges ++ [p]))) := by
      refine (hperm.cons p).trans ?_
      rw [← List.append_assoc, ← List.append_assoc, ← List.append_assoc]
      exact (List.perm_append_singleton p _).symm
    refine ⟨smalls, current, larges ++ [p], ⟨?_, ?_, ?_, hh.pieces, hh.small, ?_,
      hdistinct.perm hnew⟩, hnew⟩
    · simp [Pipe.send, hsmall, hh.high]
    · simp [Pipe.send, hsmall, hh.low]
    · simp [Pipe.send, hsmall, hh.inbox]
    · intro q hq
      rw [← List.append_assoc] at hq
      rcases List.mem_append.mp hq with hq | hq
      · exact hh.large q hq
      · rw [List.mem_singleton.mp hq]
        exact Bool.eq_false_iff.mpr hsmall

/-- **A small parcel arrives**, and nothing is in the inbox under its number. -/
theorem Flying.high {k : Cut ι α β} {pipe : Pipe ι α β} {ps : List (Parcel ι α β)}
    (h : Flying k pipe ps) {f : Frame ι α β} {rest : List (Frame ι α β)}
    (hf : pipe.high = f :: rest) :
    ∃ p ps', f = .whole p ∧ k.small p = true ∧ pipe.inbox p.id = none ∧ ps.Perm (p :: ps') ∧
      Flying k { pipe with high := rest } ps' := by
  obtain ⟨smalls, current, larges, hh, hperm⟩ := h
  cases smalls with
  | nil => exact absurd (hh.high.symm.trans hf) (by simp)
  | cons p smalls =>
    have heq := hh.high.symm.trans hf
    rw [List.map_cons] at heq
    obtain ⟨rfl, rfl⟩ := List.cons.inj heq
    obtain ⟨hp, hrest⟩ := List.pairwise_cons.mp hh.distinct
    refine ⟨p, _, rfl, hh.small p (List.mem_cons_self ..), ?_, hperm,
      smalls, current, larges, ⟨rfl, hh.low, hh.inbox, hh.pieces,
        fun q hq => hh.small q (List.mem_cons_of_mem _ hq), hh.large, hrest⟩, List.Perm.refl _⟩
    rw [hh.inbox]
    cases current with
    | none => rfl
    | some c =>
      have hne : c.parcel.id ≠ p.id := fun heq =>
        absurd (hp c.parcel (by simp) heq.symm).2 (by simp [hh.large c.parcel (by simp)])
      simp [Current.inbox, hne]

/-- What a frame of a large parcel does when it arrives. -/
inductive Arrives (k : Cut ι α β) (pipe : Pipe ι α β) (ps : List (Parcel ι α β))
    (rest : List (Frame ι α β)) : Frame ι α β → Prop
  | head {p : Parcel ι α β} (hin : pipe.inbox p.id = none) (hmem : p ∈ ps)
    (hlarge : k.small p = false)
    (h : Flying k { pipe with
      low := rest
      inbox := Function.update pipe.inbox p.id (some ⟨p.label, p.body.length, []⟩) } ps) :
    Arrives k pipe ps rest (.head p.id p.label p.body.length)
  | part {p : Parcel ι α β} {got : List (List β)} {b : List β}
    (hin : pipe.inbox p.id = some ⟨p.label, p.body.length, got⟩) (hmem : p ∈ ps)
    (hlarge : k.small p = false) (hlen : b.length ≤ k.size)
    (h : Flying k { pipe with
      low := rest
      inbox := Function.update pipe.inbox p.id (some ⟨p.label, p.body.length, got ++ [b]⟩) } ps) :
    Arrives k pipe ps rest (.part p.id b false)
  | last {p : Parcel ι α β} {ps' : List (Parcel ι α β)} {got : List (List β)} {b : List β}
    (hin : pipe.inbox p.id = some ⟨p.label, p.body.length, got⟩)
    (hbody : (got ++ [b]).flatten = p.body) (hlarge : k.small p = false)
    (hlen : b.length ≤ k.size) (hp : ps.Perm (p :: ps'))
    (h : Flying k { pipe with
      low := rest
      inbox := Function.update pipe.inbox p.id none } ps') :
    Arrives k pipe ps rest (.part p.id b true)

/-- **A frame of a large parcel arrives.** -/
theorem Flying.low {k : Cut ι α β} {pipe : Pipe ι α β} {ps : List (Parcel ι α β)}
    (h : Flying k pipe ps) {f : Frame ι α β} {rest : List (Frame ι α β)}
    (hf : pipe.low = f :: rest) : Arrives k pipe ps rest f := by
  obtain ⟨smalls, current, larges, hh, hperm⟩ := h
  have hlow := hh.low.symm.trans hf
  cases current with
  | none =>
    cases larges with
    | nil => exact absurd hlow (by simp)
    | cons p larges =>
      have hlarge := hh.large p (by simp)
      have hframes : k.frames p =
          .head p.id p.label p.body.length :: parts p.id (chunks k.size p.body) := by
        simp [Cut.frames, hlarge]
      rw [List.flatMap_cons, hframes] at hlow
      obtain ⟨rfl, rfl⟩ := List.cons.inj hlow
      refine .head ?_ ?_ hlarge ⟨smalls, some ⟨p, [], chunks k.size p.body, chunks_ne_nil _ _,
        flatten_chunks _ _⟩, larges, ⟨hh.high, rfl, ?_, ?_, hh.small, hh.large, hh.distinct⟩,
        hperm⟩
      · rw [hh.inbox]
        rfl
      · exact hperm.symm.subset (by simp)
      · funext i
        rw [hh.inbox]
        by_cases hi : i = p.id
        · simp [Current.inbox, hi]
        · simp [Current.inbox, hi, Ne.symm hi]
      · rintro c hc b hb
        obtain rfl := Option.some.inj hc
        exact length_le_of_mem_chunks k.size_pos hb
  | some c =>
    obtain ⟨p, done, pieces, hne, hbody⟩ := c
    have hlarge := hh.large p (by simp)
    have hin : pipe.inbox p.id = some ⟨p.label, p.body.length, done⟩ := by
      rw [hh.inbox]
      simp [Current.inbox]
    have hpieces := hh.pieces _ rfl
    cases pieces with
    | nil => exact absurd rfl hne
    | cons b pieces =>
      have hlen := hpieces b (List.mem_cons_self ..)
      by_cases hlast : pieces = []
      · subst hlast
        obtain ⟨rfl, rfl⟩ := List.cons.inj hlow
        have hp : ps.Perm (p :: (smalls ++ larges)) := hperm.trans List.perm_middle
        refine .last hin hbody hlarge hlen hp ⟨smalls, none, larges,
          ⟨hh.high, rfl, ?_, by simp, hh.small,
            fun q hq => hh.large q (List.mem_cons_of_mem _ hq), ?_⟩, List.Perm.refl _⟩
        · funext i
          rw [hh.inbox]
          by_cases hi : i = p.id
          · simp [Current.inbox, hi]
          · simp [Current.inbox, hi, Ne.symm hi]
        · exact (List.pairwise_cons.mp (hh.distinct.perm List.perm_middle)).2
      · rw [Option.elim_some, parts_cons _ _ hlast] at hlow
        obtain ⟨rfl, rfl⟩ := List.cons.inj hlow
        refine .part hin ?_ hlarge hlen ⟨smalls,
          some ⟨p, done ++ [b], pieces, hlast, by simpa using hbody⟩, larges,
          ⟨hh.high, rfl, ?_, ?_, hh.small, hh.large, hh.distinct⟩, hperm⟩
        · exact hperm.symm.subset (by simp)
        · funext i
          rw [hh.inbox]
          by_cases hi : i = p.id
          · simp [Current.inbox, hi]
          · simp [Current.inbox, hi, Ne.symm hi]
        · rintro c hc d hd
          obtain rfl := Option.some.inj hc
          exact hpieces d (List.mem_cons_of_mem _ hd)

/-- Something is in the inbox of a large parcel only. -/
theorem Flying.mem_of_inbox {k : Cut ι α β} {pipe : Pipe ι α β} {ps : List (Parcel ι α β)}
    (h : Flying k pipe ps) {i : ι} (hi : pipe.inbox i ≠ none) :
    ∃ p ∈ ps, p.id = i ∧ k.small p = false := by
  obtain ⟨smalls, current, larges, hh, hperm⟩ := h
  rw [hh.inbox] at hi
  cases current with
  | none => exact absurd rfl hi
  | some c =>
    by_cases heq : c.parcel.id = i
    · exact ⟨c.parcel, hperm.symm.subset (by simp), heq, hh.large c.parcel (by simp)⟩
    · exact absurd (by simp [Current.inbox, heq]) hi

/-- **When both lists are empty, nothing is on its way.** -/
theorem Flying.eq_nil {k : Cut ι α β} {pipe : Pipe ι α β} {ps : List (Parcel ι α β)}
    (h : Flying k pipe ps) (hhigh : pipe.high = []) (hlow : pipe.low = []) : ps = [] := by
  obtain ⟨smalls, current, larges, hh, hperm⟩ := h
  have hsmalls : smalls = [] := List.map_eq_nil_iff.mp (hh.high.symm.trans hhigh)
  obtain ⟨hcur, hlarges⟩ := List.append_eq_nil_iff.mp (hh.low.symm.trans hlow)
  have hnone : current = none := by
    cases current with
    | none => rfl
    | some c =>
      obtain ⟨p, done, pieces, hne, hbody⟩ := c
      cases pieces with
      | nil => exact absurd rfl hne
      | cons b bs => cases bs <;> exact absurd hcur (by simp [parts])
  have hnil : larges = [] := by
    cases larges with
    | nil => rfl
    | cons p larges =>
      have hlarge := hh.large p (by simp [hnone])
      simp [Cut.frames, hlarge] at hlarges
  rw [hsmalls, hnone, hnil] at hperm
  exact hperm.eq_nil

end LsServer.Lib.Fragments
