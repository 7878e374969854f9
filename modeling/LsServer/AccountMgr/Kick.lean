import LsServer.AccountMgr.Check

/-!
# Kicks before overwrites

A record that a call stored with node `a` and username `x` should only be overwritten after a kick
of `x` at `a` has returned. The record has no username, so a call kicks its own: the new user.

* `Overwrites` is a step that stores an account that has a record; `Kicked` asks for a kick of the
  username that stored the record, at its node, which has returned before.
* `Covered` is the condition, about the arguments of a call and the records that it finds: its own
  username is the one that stored the record, it has found the node of the record, and its request
  has returned.
* `Tracked` knows for every call in flight the step that started it and what it found.

In `relogin x y` an account logs in as `x` at one node and as `y` at another. Where the first node
is found the kick is that of `y` (`kickingLogin`), so it is one of the old user only if `y` is `x`;
where it is not found there is none (`silentLogin`), and the record is overwritten all the same.

Results:
* `kicked_iff`: a run kicks before every overwrite exactly if every overwritten record is covered
  by a call whose own username is the stored one and that found the stored node;
* `kicked_iff_of_distinct`: where all calls have their own usernames, exactly if the call that
  stored the overwritten record had itself found a record of its own node and waited for the
  kick;
* `overwritten_without_kick`: a run that overwrites without the kick.
-/

namespace LsServer.AccountMgr

open LsServer.Lib LsServer.Lua LsServer.Cluster

/-- The step `o` after `tr` overwrites a record of `uid`, last stored by call `k` with node `a` and
username `x`. -/
def Overwrites (tr : List Item) (o : Item) (k : CallId) (a : NodeName) (x : Bytes) : Prop :=
  ∃ uid pre s mid, tr = pre ++ s :: mid ∧ .store k uid a x ∈ s.out ∧
    (∀ i ∈ mid, ∀ k' a' x', .store k' uid a' x' ∉ i.out) ∧
    ∃ k' a' x', .store k' uid a' x' ∈ o.out

/-- In the run `tr`, call `k` requested the kick of `x` at node `a`, and the request returned. -/
def Kicked (tr : List Item) (k : CallId) (a : NodeName) (x : Bytes) : Prop :=
  (∃ i ∈ tr, .kick k a x ∈ i.out) ∧ ∃ j ∈ tr, j.ev = .reply k true

/-- The step starts call `k` with username `x`, and the call finds a record of node `a`. -/
def Item.Finds (i : Item) (k : CallId) (a : NodeName) (x : Bytes) : Prop :=
  (∃ uid nodeName, i.ev = .check uid nodeName x ∧ kickNode i.pre uid = some a) ∧
    i.pre.nextCall = k

/-- In the run `tr`, a call `k` with username `x` found a record of node `a`, and its request
returned. -/
def Covered (tr : List Item) (k : CallId) (a : NodeName) (x : Bytes) : Prop :=
  (∃ i ∈ tr, Item.Finds i k a x) ∧ ∃ j ∈ tr, j.ev = .reply k true

/-! ## What a suspended call knows -/

/-- A suspended call holds the username it was started with and the node it found, and the request
it made names them. -/
structure Tracked (tr : List Item) (s : State) : Prop where
  started : ∀ k call, s.calls.get k = some call → k < s.nextCall
  found : ∀ i ∈ tr, ∀ k a x, Item.Finds i k a x → k < s.nextCall ∧
    ∀ call, s.calls.get k = some call → call.infoNode = a ∧ call.username = x
  origin : ∀ k call, s.calls.get k = some call →
    ∃ i ∈ tr, Item.Finds i k call.infoNode call.username
  request : ∀ k call, s.calls.get k = some call → call.sent = true →
    ∃ i ∈ tr, .kick k call.infoNode call.username ∈ i.out

/-- A step that ends a call, or starts one that finds nothing, leaves the others as they were. -/
theorem Tracked.of_le {tr : List Item} {i : Item} {s' : State} (h : Tracked tr i.pre)
    (hcalls : ∀ k call, s'.calls.get k = some call → i.pre.calls.get k = some call)
    (hnext : i.pre.nextCall ≤ s'.nextCall) (hi : ∀ k a x, ¬ Item.Finds i k a x) :
    Tracked (tr ++ [i]) s' where
  started k call hk := lt_of_lt_of_le (h.started k call (hcalls k call hk)) hnext
  found j hj k a x hf := by
    rcases List.mem_append.mp hj with hj | hj
    · obtain ⟨hlt, hall⟩ := h.found j hj k a x hf
      exact ⟨lt_of_lt_of_le hlt hnext, fun call hk => hall call (hcalls k call hk)⟩
    · obtain rfl := List.mem_singleton.mp hj
      exact absurd hf (hi k a x)
  origin k call hk := by
    obtain ⟨j, hj, hf⟩ := h.origin k call (hcalls k call hk)
    exact ⟨j, List.mem_append_left _ hj, hf⟩
  request k call hk hs := by
    obtain ⟨j, hj, hf⟩ := h.request k call (hcalls k call hk) hs
    exact ⟨j, List.mem_append_left _ hj, hf⟩

theorem Tracked.step {tr : List Item} {i : Item} (h : Tracked tr i.pre) :
    Tracked (tr ++ [i]) i.post := by
  have hdel : ∀ k q call, (i.pre.calls.del k).get q = some call → i.pre.calls.get q = some call :=
    fun k q call hq => (Table.get_of_get_del hq).2
  have hc := Item.checked i
  have hnot : (∀ uid nodeName x, i.ev ≠ .check uid nodeName x) → ∀ k a x, ¬ Item.Finds i k a x :=
    fun hev k a x hf => by
      obtain ⟨⟨uid, nodeName, hev', -⟩, -⟩ := hf
      exact hev uid nodeName x hev'
  generalize hev : i.ev = e, hpost : i.post = s', hout : i.out = acts at hc
  cases hc with
  | @first uid nodeName username hn =>
    refine h.of_le (hdel i.pre.nextCall) (Nat.le_succ _) fun k a x hf => ?_
    obtain ⟨⟨uid', nodeName', hev', hn'⟩, -⟩ := hf
    rw [hev] at hev'
    cases hev'
    rw [hn] at hn'
    exact absurd hn' (by simp)
  | @suspended uid nodeName node username hn =>
    -- the new call is the only one with this number
    have hold : ∀ q call, q ≠ i.pre.nextCall →
        (i.pre.calls.set i.pre.nextCall ⟨uid, nodeName, username, node, false⟩).get q =
          some call → i.pre.calls.get q = some call := by
      intro q call hq hcall
      rwa [Table.get_set_ne hq] at hcall
    have hfinds : Item.Finds i i.pre.nextCall node username := ⟨⟨uid, nodeName, hev, hn⟩, rfl⟩
    constructor
    · intro q call hq
      by_cases hqn : q = i.pre.nextCall
      · exact hqn ▸ Nat.lt_succ_self _
      · exact Nat.lt_succ_of_lt (h.started q call (hold q call hqn hq))
    · intro j hj k a x hf
      rcases List.mem_append.mp hj with hj | hj
      · obtain ⟨hlt, hall⟩ := h.found j hj k a x hf
        exact ⟨Nat.lt_succ_of_lt hlt, fun call hk => hall call (hold k call hlt.ne hk)⟩
      · obtain rfl := List.mem_singleton.mp hj
        obtain ⟨⟨uid', nodeName', hev', hn'⟩, rfl⟩ := hf
        rw [hev] at hev'
        cases hev'
        obtain rfl := Option.some.inj (hn.symm.trans hn')
        refine ⟨Nat.lt_succ_self _, fun call hk => ?_⟩
        rw [Table.get_set_self] at hk
        cases hk
        exact ⟨rfl, rfl⟩
    · intro q call hq
      by_cases hqn : q = i.pre.nextCall
      · subst hqn
        rw [Table.get_set_self] at hq
        cases hq
        exact ⟨i, by simp, hfinds⟩
      · obtain ⟨j, hj, hf⟩ := h.origin q call (hold q call hqn hq)
        exact ⟨j, List.mem_append_left _ hj, hf⟩
    · intro q call hq hs
      by_cases hqn : q = i.pre.nextCall
      · subst hqn
        rw [Table.get_set_self] at hq
        cases hq
        exact absurd hs (by simp)
      · obtain ⟨j, hj, hf⟩ := h.request q call (hold q call hqn hq) hs
        exact ⟨j, List.mem_append_left _ hj, hf⟩
  | @absent k r call => exact h.of_le (hdel k) le_rfl (hnot (by simp [hev]))
  | @noMethod k r call => exact h.of_le (hdel k) le_rfl (hnot (by simp [hev]))
  | @replied k call => exact h.of_le (hdel k) le_rfl (hnot (by simp [hev]))
  | @failed k call => exact h.of_le (hdel k) le_rfl (hnot (by simp [hev]))
  | @request k r call hk hs hr =>
    -- `k` keeps what it knows and has now made its request
    have hsame : ∀ q c', (i.pre.calls.set k { call with sent := true }).get q = some c' →
        ∃ c, i.pre.calls.get q = some c ∧ c'.infoNode = c.infoNode ∧
          c'.username = c.username := by
      intro q c' hq
      by_cases hqk : q = k
      · subst hqk
        rw [Table.get_set_self] at hq
        cases hq
        exact ⟨call, hk, rfl, rfl⟩
      · rw [Table.get_set_ne hqk] at hq
        exact ⟨c', hq, rfl, rfl⟩
    constructor
    · intro q c' hq
      obtain ⟨c, hc, -⟩ := hsame q c' hq
      exact h.started q c hc
    · intro j hj q a x hf
      rcases List.mem_append.mp hj with hj | hj
      · obtain ⟨hlt, hall⟩ := h.found j hj q a x hf
        refine ⟨hlt, fun c' hq => ?_⟩
        obtain ⟨c, hc, h1, h2⟩ := hsame q c' hq
        rw [h1, h2]
        exact hall c hc
      · obtain rfl := List.mem_singleton.mp hj
        exact absurd hf (hnot (by simp [hev]) q a x)
    · intro q c' hq
      obtain ⟨c, hc, h1, h2⟩ := hsame q c' hq
      obtain ⟨j, hj, hf⟩ := h.origin q c hc
      exact ⟨j, List.mem_append_left _ hj, h1 ▸ h2 ▸ hf⟩
    · intro q c' hq hs'
      by_cases hqk : q = k
      · subst hqk
        rw [Table.get_set_self] at hq
        cases hq
        exact ⟨i, by simp, by simp [hout]⟩
      · rw [Table.get_set_ne hqk] at hq
        obtain ⟨j, hj, hf⟩ := h.request q c' hq hs'
        exact ⟨j, List.mem_append_left _ hj, hf⟩

theorem Run.tracked {tr : List Item} {s : State} (h : machine.Run tr s) : Tracked tr s := by
  refine Machine.Run.history (J := Tracked) ⟨?_, ?_, ?_, ?_⟩ (fun tr i _ hJ => hJ.step) h
  · exact fun k call hk => absurd hk (by simp [machine, State.init])
  · simp
  · exact fun k call hk => absurd hk (by simp [machine, State.init])
  · exact fun k call hk => absurd hk (by simp [machine, State.init])

/-! ## Kicks -/

/-- **A kick names the caller's own username**, at the node the caller found. -/
theorem finds_of_kick {tr : List Item} {s : State} (h : machine.Run tr s) {i : Item}
    (hi : i ∈ tr) {k : CallId} {a : NodeName} {x : Bytes} (hk : .kick k a x ∈ i.out) :
    ∃ j ∈ tr, Item.Finds j k a x := by
  obtain ⟨pre, post, rfl⟩ := List.append_of_mem hi
  have ht : Tracked pre i.pre := Run.tracked h.split.1
  have hc := Item.checked i
  generalize i.ev = e, i.post = s', i.out = acts at hc hk
  cases hc with
  | request hget =>
    simp only [List.mem_singleton, Act.kick.injEq] at hk
    obtain ⟨rfl, rfl, rfl⟩ := hk
    obtain ⟨j, hj, hf⟩ := ht.origin _ _ hget
    exact ⟨j, List.mem_append_left _ hj, hf⟩
  | _ => exact absurd hk (by simp)

/-- A request that returned was made by a call with its own username, to the node it found. -/
theorem kick_of_reply {tr : List Item} {s : State} (h : machine.Run tr s) {i j : Item}
    (hi : i ∈ tr) {k : CallId} {a : NodeName} {x : Bytes} (hf : Item.Finds i k a x)
    (hj : j ∈ tr) (hev : j.ev = .reply k true) : ∃ i ∈ tr, .kick k a x ∈ i.out := by
  obtain ⟨pre, post, rfl⟩ := List.append_of_mem hj
  have ht : Tracked pre j.pre := Run.tracked h.split.1
  have hc := Item.checked j
  have hle := Item.nextCall_le j
  rw [hev] at hc
  generalize hpost : j.post = s', j.out = acts at hc hle
  cases hc with
  | @replied _ call hget hs =>
    have hlt : k < j.pre.nextCall := ht.started k call hget
    -- numbers are given once, so the call was started before
    have hpre : i ∈ pre := by
      obtain ⟨⟨uid, nodeName, hevi, -⟩, hk⟩ := hf
      rcases List.mem_append.mp hi with hi | hi
      · exact hi
      rcases List.mem_cons.mp hi with rfl | hi
      · exact absurd (hev.symm.trans hevi) (by simp)
      · have hI := h.split.2.keeps_pre (I := fun s => k < s.nextCall)
          (by rw [hpost]; exact lt_of_lt_of_le hlt hle)
          (fun i' _ hI => lt_of_lt_of_le hI (Item.nextCall_le i')) i hi
        exact absurd hk hI.ne'
    obtain ⟨-, hall⟩ := ht.found i hpre k a x hf
    obtain ⟨rfl, rfl⟩ := hall call hget
    obtain ⟨i', hi', hkick⟩ := ht.request k call hget hs
    exact ⟨i', List.mem_append_left _ hi', hkick⟩

/-- **A call that found a record returns after its kick**: the request was made and has returned,
unless the service was not found. -/
theorem kick_of_returned {a b : List Item} {j : Item} {s : State}
    (h : machine.Run (a ++ j :: b) s) {k : CallId} (hk : .returned k ∈ j.out)
    (hfound : ∀ r, j.ev = .search k r → remoteCall r (bytes "kick") ≠ .absent) {i : Item}
    (hi : i ∈ a) {m : NodeName} {x : Bytes} (hf : Item.Finds i k m x) :
    j.ev = .reply k true ∧ ∃ i' ∈ a, .kick k m x ∈ i'.out := by
  have ht : Tracked a j.pre := Run.tracked h.split.1
  obtain ⟨hlt, hall⟩ := ht.found i hi k m x hf
  have hc := Item.checked j
  generalize j.ev = e, j.post = s', j.out = acts at hc hk hfound
  cases hc with
  | first =>
    obtain rfl : k = j.pre.nextCall := by simpa using hk
    exact absurd hlt (lt_irrefl _)
  | @absent q r call hq hs hr =>
    obtain rfl : k = q := by simpa using hk
    exact absurd hr (hfound r rfl)
  | @replied q call hq hs =>
    obtain rfl : k = q := by simpa using hk
    obtain ⟨rfl, rfl⟩ := hall call hq
    exact ⟨rfl, ht.request k call hq hs⟩
  | suspended | noMethod | request | failed => exact absurd hk (by simp)

/-- **Which kicks have returned**: those of the calls that found the node themselves. -/
theorem kicked_iff_covered {tr : List Item} {s : State} (h : machine.Run tr s) {k : CallId}
    {a : NodeName} {x : Bytes} : Kicked tr k a x ↔ Covered tr k a x := by
  constructor
  · rintro ⟨⟨i, hi, hk⟩, hreply⟩
    exact ⟨finds_of_kick h hi hk, hreply⟩
  · rintro ⟨⟨i, hi, hf⟩, j, hj, hev⟩
    exact ⟨kick_of_reply h hi hf hj hev, j, hj, hev⟩

/-- **When every overwrite follows its kick.** The overwriting step is part of both runs, since it
begins with the return of the kick of its own call. -/
theorem kicked_iff {tr : List Item} {s : State} (h : machine.Run tr s) :
    (∀ pre o post k a x, tr = pre ++ o :: post → Overwrites pre o k a x →
      ∃ k', Kicked (pre ++ [o]) k' a x) ↔
    ∀ pre o post k a x, tr = pre ++ o :: post → Overwrites pre o k a x →
      ∃ k', Covered (pre ++ [o]) k' a x := by
  have hcut : ∀ pre o post, tr = pre ++ o :: post → ∀ k a x,
      Kicked (pre ++ [o]) k a x ↔ Covered (pre ++ [o]) k a x := by
    rintro pre o post rfl k a x
    exact kicked_iff_covered (Machine.path_snoc_iff.mpr ⟨h.split.1, rfl⟩)
  constructor
  · intro hk pre o post k a x htr ho
    obtain ⟨k', hk'⟩ := hk pre o post k a x htr ho
    exact ⟨k', (hcut pre o post htr k' a x).mp hk'⟩
  · intro hc pre o post k a x htr ho
    obtain ⟨k', hk'⟩ := hc pre o post k a x htr ho
    exact ⟨k', (hcut pre o post htr k' a x).mpr hk'⟩

/-! ## Distinct usernames -/

/-- The step starts call `k` with username `x`. -/
def Item.Starts (i : Item) (k : CallId) (x : Bytes) : Prop :=
  (∃ uid nodeName, i.ev = .check uid nodeName x) ∧ i.pre.nextCall = k

/-- No two calls of the run have the same username. -/
def Distinct (tr : List Item) : Prop :=
  ∀ i ∈ tr, ∀ j ∈ tr, ∀ k k' x, Item.Starts i k x → Item.Starts j k' x → k = k'

theorem Item.Finds.starts {i : Item} {k : CallId} {a : NodeName} {x : Bytes}
    (h : Item.Finds i k a x) : Item.Starts i k x := by
  obtain ⟨⟨uid, nodeName, hev, -⟩, hk⟩ := h
  exact ⟨⟨uid, nodeName, hev⟩, hk⟩

/-- A call stores under the username it was started with. -/
theorem starts_of_store {tr : List Item} {s : State} (h : machine.Run tr s) {i : Item}
    (hi : i ∈ tr) {k : CallId} {uid a x : Bytes} (hs : .store k uid a x ∈ i.out) :
    ∃ j ∈ tr, Item.Starts j k x := by
  obtain ⟨pre, post, rfl⟩ := List.append_of_mem hi
  have ht : Tracked pre i.pre := Run.tracked h.split.1
  have horigin : ∀ k call, i.pre.calls.get k = some call →
      ∃ j ∈ pre ++ i :: post, Item.Starts j k call.username := fun k call hget => by
    obtain ⟨j, hj, hf⟩ := ht.origin k call hget
    exact ⟨j, List.mem_append_left _ hj, hf.starts⟩
  have hc := Item.checked i
  generalize hev : i.ev = e, i.post = s', i.out = acts at hc hs
  cases hc with
  | @first uid' nodeName username hn =>
    obtain ⟨rfl, rfl, rfl, rfl⟩ : k = i.pre.nextCall ∧ uid = uid' ∧ a = nodeName ∧
      x = username := by simpa using hs
    exact ⟨i, hi, ⟨uid, a, hev⟩, rfl⟩
  | @absent _ _ call hget =>
    obtain ⟨rfl, -, -, rfl⟩ : k = _ ∧ uid = call.uid ∧ a = call.nodeName ∧
      x = call.username := by simpa using hs
    exact horigin _ _ hget
  | @replied _ call hget =>
    obtain ⟨rfl, -, -, rfl⟩ : k = _ ∧ uid = call.uid ∧ a = call.nodeName ∧
      x = call.username := by simpa using hs
    exact horigin _ _ hget
  | _ => exact absurd hs (by simp)

/-- **With distinct usernames a record is kicked only by the call that stored it**, when that call
had found a record of its own node. -/
theorem kicked_iff_of_distinct {pre : List Item} {o : Item} {s : State}
    (h : machine.Run (pre ++ [o]) s) (hd : Distinct (pre ++ [o])) {k : CallId} {a : NodeName}
    {x : Bytes} (ho : Overwrites pre o k a x) :
    (∃ k', Kicked (pre ++ [o]) k' a x) ↔ Covered (pre ++ [o]) k a x := by
  constructor
  · rintro ⟨k', hk'⟩
    obtain ⟨⟨i, hi, hf⟩, hreply⟩ := (kicked_iff_covered h).mp hk'
    obtain ⟨uid, p, t, mid, rfl, hstore, -⟩ := ho
    obtain ⟨j, hj, hst⟩ := starts_of_store h (i := t) (by simp) hstore
    obtain rfl := hd i hi j hj k' k x hf.starts hst
    exact ⟨⟨i, hi, hf⟩, hreply⟩
  · exact fun hc => ⟨k, (kicked_iff_covered h).mpr hc⟩

/-! ## Two logins of one account -/

/-- Account `u` logs in at node `g1` as `x` and then at node `g2` as `y`. -/
def relogin (x y : Bytes) : List Event :=
  [.check (bytes "u") (bytes "g1") x, .check (bytes "u") (bytes "g2") y]

/-- The second login finds the service of `g1`, kicks there and overwrites. -/
def kickingLogin (x y : Bytes) : List Event :=
  relogin x y ++ [.search 1 (.bound (some ⟨[bytes "kick"]⟩)), .reply 1 true]

/-- The second login does not find it, and overwrites. -/
def silentLogin (x y : Bytes) : List Event := relogin x y ++ [.search 1 .snaxFails]

theorem kickingLogin_run (x y : Bytes) : ∃ i j m o : Item, machine.Run ([i, j, m] ++ [o]) o.post ∧
    [i, j, m, o].map Machine.Item.ev = kickingLogin x y ∧
    [i, j, m, o].map Machine.Item.out =
      [[.store 0 (bytes "u") (bytes "g1") x, .returned 0], [], [.kick 1 (bytes "g1") y],
        [.store 1 (bytes "u") (bytes "g2") y, .returned 1]] := by
  obtain ⟨tr, hrun, hev, hout⟩ := Machine.exists_run_out (M := machine) (kickingLogin x y) rfl
  have hlen : tr.length = 4 := by simpa [kickingLogin, relogin] using congrArg List.length hev
  match tr, hlen with
  | [i, j, m, o], _ => exact ⟨i, j, m, o, hrun, hev, hout⟩

theorem silentLogin_run (x y : Bytes) : ∃ i j o : Item, machine.Run ([i, j] ++ [o]) o.post ∧
    [i, j, o].map Machine.Item.ev = silentLogin x y ∧
    [i, j, o].map Machine.Item.out =
      [[.store 0 (bytes "u") (bytes "g1") x, .returned 0], [],
        [.store 1 (bytes "u") (bytes "g2") y, .returned 1]] := by
  obtain ⟨tr, hrun, hev, hout⟩ := Machine.exists_run_out (M := machine) (silentLogin x y) rfl
  have hlen : tr.length = 3 := by simpa [silentLogin, relogin] using congrArg List.length hev
  match tr, hlen with
  | [i, j, o], _ => exact ⟨i, j, o, hrun, hev, hout⟩

/-- **Overwrites without a kick**: of the stored user `x`, whether the second login kicks, and then
itself, or does not find the service. -/
theorem overwritten_without_kick :
    (∃ pre o, machine.Run (pre ++ [o]) o.post ∧
      (pre ++ [o]).map Machine.Item.ev = kickingLogin (bytes "x") (bytes "y") ∧
      Overwrites pre o 0 (bytes "g1") (bytes "x") ∧
      ∀ k, ¬ Kicked (pre ++ [o]) k (bytes "g1") (bytes "x")) ∧
    ∃ pre o, machine.Run (pre ++ [o]) o.post ∧
      (pre ++ [o]).map Machine.Item.ev = silentLogin (bytes "x") (bytes "y") ∧
      Overwrites pre o 0 (bytes "g1") (bytes "x") ∧
      ∀ k, ¬ Kicked (pre ++ [o]) k (bytes "g1") (bytes "x") := by
  have hxy : bytes "x" ≠ bytes "y" := by decide
  constructor
  · obtain ⟨i, j, m, o, hrun, hev, hout⟩ := kickingLogin_run (bytes "x") (bytes "y")
    simp only [List.map_cons, List.map_nil, List.cons.injEq, and_true] at hout
    obtain ⟨hi, hj, hm, ho⟩ := hout
    have hstore : .store 1 (bytes "u") (bytes "g2") (bytes "y") ∈ o.out := by simp [ho]
    refine ⟨[i, j, m], o, hrun, hev, ⟨bytes "u", [], i, [j, m], rfl, by simp [hi], ?_,
      1, _, _, hstore⟩, fun k ⟨⟨n, hn, hk⟩, _⟩ => ?_⟩
    · simp [hj, hm]
    · simp only [List.mem_append, List.mem_cons, List.not_mem_nil, or_false] at hn
      obtain (rfl | rfl | rfl) | rfl := hn
      · simp [hi] at hk
      · simp [hj] at hk
      · simp [hm, hxy] at hk
      · simp [ho] at hk
  · obtain ⟨i, j, o, hrun, hev, hout⟩ := silentLogin_run (bytes "x") (bytes "y")
    simp only [List.map_cons, List.map_nil, List.cons.injEq, and_true] at hout
    obtain ⟨hi, hj, ho⟩ := hout
    have hstore : .store 1 (bytes "u") (bytes "g2") (bytes "y") ∈ o.out := by simp [ho]
    refine ⟨[i, j], o, hrun, hev, ⟨bytes "u", [], i, [j], rfl, by simp [hi], ?_,
      1, _, _, hstore⟩, fun k ⟨⟨n, hn, hk⟩, _⟩ => ?_⟩
    · simp [hj]
    · simp only [List.mem_append, List.mem_cons, List.not_mem_nil, or_false] at hn
      obtain (rfl | rfl) | rfl := hn
      · simp [hi] at hk
      · simp [hj] at hk
      · simp [ho] at hk

theorem kicked_iff_kickingLogin : ∃ tr s, machine.Run tr s ∧
    tr.map Machine.Item.ev = kickingLogin (bytes "x") (bytes "x") ∧
    ((∀ pre o post k a x, tr = pre ++ o :: post → Overwrites pre o k a x →
      ∃ k', Kicked (pre ++ [o]) k' a x) ↔
    ∀ pre o post k a x, tr = pre ++ o :: post → Overwrites pre o k a x →
      ∃ k', Covered (pre ++ [o]) k' a x) := by
  obtain ⟨i, j, m, o, hrun, hev, -⟩ := kickingLogin_run (bytes "x") (bytes "x")
  exact ⟨[i, j, m, o], o.post, hrun, hev, kicked_iff hrun⟩

end LsServer.AccountMgr
