import LsServer.Cluster.Delivery

/-!
# Cluster calls: what has been seen

`Told` is what the acts of a run say, without a look at what is on its way. Requests are told apart
by their sessions: no two are written under one, except the pushes that have none. What an agent
takes has been written, what it answers has been taken, and what a caller gets is an answer to what
it has written itself.

A session is `fresh` until its request is written: nobody has got anything under it, and nobody
waits for it. Which sessions these are is a parameter here, that the sender makes smaller step by
step.

* `Act.request`, `Act.taken` and their like read one kind of act off a run, so that counting them is
  filtering a list.
* `Told.unique` is what sessions are for: two requests under one session are one, or both are pushes
  under the session 0.
* `Told.returned` and `Told.ended` are about the callers: what a caller gets answers its own
  request, and no call ends twice.
* `Told.unknown` is about responses that are thrown away: none of them answers a call.

Source: none of its own; `Call` has the code. Nothing here looks at packages, so it does not matter
how a request travels.

Results:
* `Told.issue`: a request under a fresh session;
* `Told.take`, `Told.answer`, `Told.stray`: what agents do, and a response that nobody waits for;
* `Told.finish`: callers get their results;
* `Told.origin`, `Told.validResponse`: where a response comes from.
-/

namespace LsServer.Cluster.Call

open LsServer.Lua LsServer.Lib LsServer.Lib.Fragments

def Act.request : Act → Option RequestParcel
  | .issued _ p => some p
  | _ => none

/-- The request that the agent hands on or answers itself. -/
def Act.taken : Act → Option RequestParcel
  | .handed p => some p
  | .kept p => some p
  | _ => none

/-- The session that ends. -/
def Act.ended : Act → Option Nat
  | .returned _ session _ => some session
  | .raised _ session => some session
  | _ => none

/-- An agent has taken the request. -/
def Taken (out : List Act) (p : RequestParcel) : Prop := ∃ a ∈ out, a.taken = some p

/-- What a caller gets for a response: an error where the service has raised one. -/
def outcome (r : ResponseParcel) : Option Bytes := if r.label then some r.body else none

theorem Taken.mono {out out' : List Act} {p : RequestParcel} (h : Taken out p)
    (hsub : out ⊆ out') : Taken out' p := by
  obtain ⟨a, ha, hp⟩ := h
  exact ⟨a, hsub ha, hp⟩

/-! ## What has been seen -/

/-- **What the acts `out` say** about the sessions that are not fresh, and those that wait. -/
structure Told (out : List Act) (fresh : Nat → Prop) (thread : Table Nat Waiting) : Prop where
  issued : ∀ co p, .issued co p ∈ out →
    ValidRequest p ∧ ¬fresh p.id ∧ p.label.2 = co.isNone ∧ (co.isSome → p.id ≠ 0)
  unique : ∀ co p co' q, .issued co p ∈ out → .issued co' q ∈ out → p.id = q.id → p.id ≠ 0 → p = q
  taken : ∀ p, Taken out p → ∃ co, .issued co p ∈ out
  answered : ∀ r, .answered r ∈ out → ∃ p, Taken out p ∧ p.id = r.id
  returned : ∀ co n result, .returned co n result ∈ out → ∃ p r, .issued (some co) p ∈ out ∧
    Taken out p ∧ .answered r ∈ out ∧ p.id = n ∧ r.id = n ∧ result = outcome r
  ended : (out.filterMap Act.ended).Nodup
  used : ∀ n ∈ out.filterMap Act.ended, ¬fresh n
  waiting : ∀ n w, thread.get n = some w →
    n ∉ out.filterMap Act.ended ∧ ∃ p, .issued (some w.co) p ∈ out ∧ p.id = n
  unknown : ∀ n, .unknown n ∈ out → ¬fresh n ∧ ∀ co p, .issued (some co) p ∈ out → p.id ≠ n

variable {out : List Act} {fresh : Nat → Prop} {thread : Table Nat Waiting}

theorem told_init : Told [] fresh .empty := by
  refine ⟨?_, ?_, ?_, ?_, ?_, List.nodup_nil, ?_, ?_, ?_⟩ <;> simp [Taken]

theorem Told.mono (h : Told out fresh thread) {fresh' : Nat → Prop}
    (hle : ∀ n, fresh' n → fresh n) : Told out fresh' thread where
  __ := h
  issued co p hp := by
    obtain ⟨hv, hold, hpush, hne⟩ := h.issued co p hp
    exact ⟨hv, fun hf => hold (hle _ hf), hpush, hne⟩
  used n hn hf := h.used n hn (hle n hf)
  unknown n hn := ⟨fun hf => (h.unknown n hn).1 (hle n hf), (h.unknown n hn).2⟩

/-- A request is written, under a fresh session or as a push that has none. -/
theorem Told.issue (h : Told out fresh thread) (co : Option Co) {p : RequestParcel}
    {fresh' : Nat → Prop} (hv : ValidRequest p) (hpush : p.label.2 = co.isNone)
    (hid : fresh p.id ∨ co = none ∧ p.id = 0) (hne : co.isSome → p.id ≠ 0)
    (hused : ¬fresh' p.id) (hle : ∀ n, fresh' n → fresh n) :
    Told (out ++ [.issued co p]) fresh' thread := by
  have hended : (out ++ [Act.issued co p]).filterMap Act.ended = out.filterMap Act.ended := by
    simp [Act.ended]
  have hsub : out ⊆ out ++ [Act.issued co p] := List.subset_append_left ..
  have htaken : ∀ q, Taken (out ++ [.issued co p]) q → Taken out q := by
    rintro q ⟨a, ha, hq⟩
    rcases List.mem_append.mp ha with ha | ha
    · exact ⟨a, ha, hq⟩
    · rw [List.mem_singleton.mp ha] at hq
      exact absurd hq (by simp [Act.taken])
  refine ⟨?_, ?_, ?_, ?_, ?_, hended ▸ h.ended, ?_, ?_, ?_⟩
  · intro co' q hq
    rcases List.mem_append.mp hq with hq | hq
    · exact (h.mono hle).issued co' q hq
    · obtain ⟨rfl, rfl⟩ := Act.issued.inj (List.mem_singleton.mp hq)
      exact ⟨hv, hused, hpush, hne⟩
  · intro co1 q1 co2 q2 h1 h2 heq hq0
    -- the new request has a session that none before it has
    have hnew : ∀ co' q, .issued co' q ∈ out → q.id = p.id → p.id ≠ 0 → False := by
      intro co' q hq hqp h0
      exact (h.issued co' q hq).2.1 (hqp ▸ hid.resolve_right fun hr => h0 hr.2)
    rcases List.mem_append.mp h1 with h1 | h1 <;> rcases List.mem_append.mp h2 with h2 | h2
    · exact h.unique co1 q1 co2 q2 h1 h2 heq hq0
    · have hq := (Act.issued.inj (List.mem_singleton.mp h2)).2
      exact (hnew co1 q1 h1 (hq ▸ heq) (hq ▸ heq ▸ hq0)).elim
    · have hq := (Act.issued.inj (List.mem_singleton.mp h1)).2
      exact (hnew co2 q2 h2 (hq ▸ heq.symm) (hq ▸ hq0)).elim
    · rw [(Act.issued.inj (List.mem_singleton.mp h1)).2,
        (Act.issued.inj (List.mem_singleton.mp h2)).2]
  · intro q hq
    obtain ⟨co', hco⟩ := h.taken q (htaken q hq)
    exact ⟨co', hsub hco⟩
  · intro r hr
    obtain ⟨q, hq, heq⟩ := h.answered r (by simpa using hr)
    exact ⟨q, hq.mono hsub, heq⟩
  · intro co' n result hn
    obtain ⟨q, r, hq, hq', hr, heq⟩ := h.returned co' n result (by simpa using hn)
    exact ⟨q, r, hsub hq, hq'.mono hsub, hsub hr, heq⟩
  · rw [hended]
    exact (h.mono hle).used
  · intro n w hw
    obtain ⟨hnot, q, hq, heq⟩ := h.waiting n w hw
    exact ⟨hended ▸ hnot, q, hsub hq, heq⟩
  · intro n hn
    obtain ⟨hold, hcalls⟩ := h.unknown n (by simpa using hn)
    refine ⟨fun hf => hold (hle n hf), fun co' q hq heq => ?_⟩
    rcases List.mem_append.mp hq with hq | hq
    · exact hcalls co' q hq heq
    · obtain ⟨rfl, rfl⟩ := Act.issued.inj (List.mem_singleton.mp hq)
      exact hold (heq ▸ hid.resolve_right fun hr => by simp at hr)

/-- The caller waits for the request that was just written. -/
theorem Told.wait (h : Told out fresh thread) {co : Co} {p : RequestParcel}
    (hp : .issued (some co) p ∈ out) (hnot : p.id ∉ out.filterMap Act.ended) :
    Told out fresh (thread.set p.id ⟨co, none⟩) where
  __ := h
  waiting n w hw := by
    rw [Table.get_set] at hw
    split at hw
    · rename_i heq
      rw [← Option.some.inj hw, heq]
      exact ⟨hnot, p, hp, rfl⟩
    · exact h.waiting n w hw

/-- Some data has come for one that waits. -/
theorem Told.more (h : Told out fresh thread) {n : Nat} {w : Waiting}
    (hw : thread.get n = some w) (data : Option (List Piece)) :
    Told out fresh (thread.set n { w with resultData := data }) where
  __ := h
  waiting m v hv := by
    rw [Table.get_set] at hv
    split at hv
    · rename_i heq
      rw [← Option.some.inj hv, heq]
      exact h.waiting n w hw
    · exact h.waiting m v hv

/-- An act that neither writes a request nor ends a session. -/
theorem Told.quiet (h : Told out fresh thread) {a : Act} (hended : a.ended = none)
    (hissued : a.request = none) (htaken : ∀ p, a.taken = some p → ∃ co, .issued co p ∈ out)
    (hanswered : ∀ r, a = .answered r → ∃ p, Taken out p ∧ p.id = r.id)
    (hunknown : ∀ n, a = .unknown n → ¬fresh n ∧ ∀ co p, .issued (some co) p ∈ out → p.id ≠ n) :
    Told (out ++ [a]) fresh thread := by
  have heq : (out ++ [a]).filterMap Act.ended = out.filterMap Act.ended := by
    simp [List.filterMap_append, hended]
  have hsub : out ⊆ out ++ [a] := List.subset_append_left ..
  have hold : ∀ co p, .issued co p ∈ out ++ [a] → .issued co p ∈ out := by
    intro co p hp
    rcases List.mem_append.mp hp with hp | hp
    · exact hp
    · rw [← List.mem_singleton.mp hp] at hissued
      exact absurd hissued (by simp [Act.request])
  refine ⟨fun co p hp => h.issued co p (hold co p hp),
    fun co p co' q hp hq => h.unique co p co' q (hold co p hp) (hold co' q hq), ?_, ?_, ?_,
    heq ▸ h.ended, heq ▸ h.used, fun n w hw => ?_, fun n hn => ?_⟩
  · rintro p ⟨b, hb, hp⟩
    rcases List.mem_append.mp hb with hb | hb
    · obtain ⟨co, hco⟩ := h.taken p ⟨b, hb, hp⟩
      exact ⟨co, hsub hco⟩
    · obtain ⟨co, hco⟩ := htaken p (List.mem_singleton.mp hb ▸ hp)
      exact ⟨co, hsub hco⟩
  · intro r hr
    rcases List.mem_append.mp hr with hr | hr
    · obtain ⟨p, hp, hid⟩ := h.answered r hr
      exact ⟨p, hp.mono hsub, hid⟩
    · obtain ⟨p, hp, hid⟩ := hanswered r (List.mem_singleton.mp hr).symm
      exact ⟨p, hp.mono hsub, hid⟩
  · intro co n result hn
    rcases List.mem_append.mp hn with hn | hn
    · obtain ⟨p, r, hp, hp', hr, hids⟩ := h.returned co n result hn
      exact ⟨p, r, hsub hp, hp'.mono hsub, hsub hr, hids⟩
    · rw [← List.mem_singleton.mp hn] at hended
      exact absurd hended (by simp [Act.ended])
  · obtain ⟨hnot, p, hp, hid⟩ := h.waiting n w hw
    exact ⟨heq ▸ hnot, p, hsub hp, hid⟩
  · rcases List.mem_append.mp hn with hn | hn
    · exact ⟨(h.unknown n hn).1, fun co p hp => (h.unknown n hn).2 co p (hold co p hp)⟩
    · obtain ⟨hused, hcalls⟩ := hunknown n (List.mem_singleton.mp hn).symm
      exact ⟨hused, fun co p hp => hcalls co p (hold co p hp)⟩

/-- An agent takes a request. -/
theorem Told.take (h : Told out fresh thread) {a : Act} {co : Option Co} {p : RequestParcel}
    (ha : a = .handed p ∨ a = .kept p) (hp : .issued co p ∈ out) :
    Told (out ++ [a]) fresh thread := by
  rcases ha with rfl | rfl
  · exact h.quiet rfl rfl (fun q hq => ⟨co, Option.some.inj hq ▸ hp⟩) (by simp) (by simp)
  · exact h.quiet rfl rfl (fun q hq => ⟨co, Option.some.inj hq ▸ hp⟩) (by simp) (by simp)

theorem Told.answer (h : Told out fresh thread) {p : RequestParcel} {r : ResponseParcel}
    (hp : Taken out p) (hid : p.id = r.id) : Told (out ++ [.answered r]) fresh thread := by
  refine h.quiet rfl rfl (by simp [Act.taken]) (fun q hq => ?_) (by simp)
  obtain rfl := Act.answered.inj hq
  exact ⟨p, hp, hid⟩

theorem Told.stray (h : Told out fresh thread) {n : Nat} (hused : ¬fresh n)
    (hcalls : ∀ co p, .issued (some co) p ∈ out → p.id ≠ n) :
    Told (out ++ [.unknown n]) fresh thread := by
  refine h.quiet rfl rfl (by simp [Act.taken]) (by simp) fun m hm => ?_
  obtain rfl := Act.unknown.inj hm
  exact ⟨hused, hcalls⟩

/-- Acts that end sessions; those that still wait are others. -/
theorem Told.finish (h : Told out fresh thread) {a : List Act} {thread' : Table Nat Waiting}
    (hacts : ∀ x ∈ a, ∃ n, x.ended = some n ∧ ¬fresh n)
    (hnodup : (a.filterMap Act.ended).Nodup)
    (hnew : ∀ n ∈ a.filterMap Act.ended, n ∉ out.filterMap Act.ended)
    (hreturned : ∀ co n result, .returned co n result ∈ a → ∃ p r, .issued (some co) p ∈ out ∧
      Taken out p ∧ .answered r ∈ out ∧ p.id = n ∧ r.id = n ∧ result = outcome r)
    (hthread : ∀ n w, thread'.get n = some w →
      thread.get n = some w ∧ n ∉ a.filterMap Act.ended) :
    Told (out ++ a) fresh thread' := by
  have hsub : out ⊆ out ++ a := List.subset_append_left ..
  have hold : ∀ x ∈ out ++ a, x.ended = none → x ∈ out := by
    intro x hx hended
    rcases List.mem_append.mp hx with hx | hx
    · exact hx
    · obtain ⟨n, hn, -⟩ := hacts x hx
      exact absurd (hended.symm.trans hn) (by simp)
  have heq : (out ++ a).filterMap Act.ended =
      out.filterMap Act.ended ++ a.filterMap Act.ended := List.filterMap_append
  refine ⟨fun co p hp => h.issued co p (hold _ hp rfl),
    fun co p co' q hp hq => h.unique co p co' q (hold _ hp rfl) (hold _ hq rfl), ?_, ?_, ?_, ?_, ?_,
    fun n w hw => ?_, fun n hn => ?_⟩
  · rintro p ⟨x, hx, hp⟩
    have hended : x.ended = none := by
      cases x <;> first | rfl | exact absurd hp (by simp [Act.taken])
    obtain ⟨co, hco⟩ := h.taken p ⟨x, hold x hx hended, hp⟩
    exact ⟨co, hsub hco⟩
  · intro r hr
    obtain ⟨p, hp, hid⟩ := h.answered r (hold _ hr rfl)
    exact ⟨p, hp.mono hsub, hid⟩
  · intro co n result hn
    have hsome : ∃ p r, .issued (some co) p ∈ out ∧ Taken out p ∧ .answered r ∈ out ∧
        p.id = n ∧ r.id = n ∧ result = outcome r := by
      rcases List.mem_append.mp hn with hn | hn
      · exact h.returned co n result hn
      · exact hreturned co n result hn
    obtain ⟨p, r, hp, hp', hr, hids⟩ := hsome
    exact ⟨p, r, hsub hp, hp'.mono hsub, hsub hr, hids⟩
  · rw [heq]
    exact h.ended.append hnodup fun n hn hn' => hnew n hn' hn
  · intro n hn
    rw [heq] at hn
    rcases List.mem_append.mp hn with hn | hn
    · exact h.used n hn
    · obtain ⟨x, hx, hsome⟩ := List.mem_filterMap.mp hn
      obtain ⟨m, hm, hused⟩ := hacts x hx
      rwa [Option.some.inj (hsome.symm.trans hm)]
  · obtain ⟨hw, hnot⟩ := hthread n w hw
    obtain ⟨hnot', p, hp, hid⟩ := h.waiting n w hw
    refine ⟨fun hmem => ?_, p, hsub hp, hid⟩
    rw [heq] at hmem
    exact (List.mem_append.mp hmem).elim hnot' hnot
  · obtain ⟨hused, hcalls⟩ := h.unknown n (hold _ hn rfl)
    exact ⟨hused, fun co p hp => hcalls co p (hold _ hp rfl)⟩

/-- A response that is on its way answers a request that was taken. -/
theorem Told.origin (h : Told out fresh thread) {r : ResponseParcel} (hr : .answered r ∈ out) :
    ∃ co p, .issued co p ∈ out ∧ Taken out p ∧ p.id = r.id := by
  obtain ⟨p, hp, hid⟩ := h.answered r hr
  obtain ⟨co, hco⟩ := h.taken p hp
  exact ⟨co, p, hco, hp, hid⟩

/-- What answers a request that was taken. -/
theorem Told.validResponse (h : Told out fresh thread) {p : RequestParcel} (hp : Taken out p)
    (ok : Bool) {msg : Bytes} (hmsg : msg.length < 2 ^ 31)
    (hpush : p.id = 0 → ok = true → msg.length ≤ MULTI_PART) :
    ValidResponse (responseParcel p.id ok msg) := by
  obtain ⟨co, hco⟩ := h.taken p hp
  have hv := (h.issued co p hco).1
  refine ⟨hv.id, ?_, fun hok => ?_, fun h0 => ?_⟩
  · cases ok with
    | true => exact hmsg
    | false =>
      change (msg.take MULTI_PART).length < 2 ^ 31
      rw [List.length_take]
      omega
  · obtain rfl : ok = false := hok
    exact List.length_take_le ..
  · cases ok with
    | false => rfl
    | true => exact decide_eq_true (hpush h0 rfl)

end LsServer.Cluster.Call
