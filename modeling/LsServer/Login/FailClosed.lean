import LsServer.AccountMgr.Kick
import LsServer.Login.Agreement

/-!
# Logins fail closed

A login at a node should only go through after `checkRepetitionLogin` has run at the account
manager, and that only after it has reached the node it has on record: the comment at
`checkRepetitionLogin` refuses the login where that node cannot be reached. A request that fails
raises in the caller and stops the login. But `remoteCall` returns `nil` where the search for the
service fails, like a call that succeeds, and neither caller looks.

Source: the comment at AccountMgr.lua 28-30; SnaxUtil.lua 3-34; Gamed.lua 43 and AccountMgr.lua 40,
the two callers that do not look at the result.

* `Event.NotFound` is a search that does not give the service: `cluster.query` or `cluster.snax`
  raises. Where `cluster.snax` returns nothing `getRemoteSrv` raises itself, and the login is
  refused.
* `Completed`: a `checkRepetitionLogin` for that account, node and username has run to its end.
* `Flow.Past`: the flow is behind the call of the account manager. `CheckedFirst` says that such a
  flow has a completed check, and knows which call of the account manager is whose.
* A check that found a record has reached its node (`Item.Finds`): its request has returned without
  an error.

The condition names the searches of a run, and nothing else: a request that is lost or raises is
never taken for a success.

Results:
* `Run.accountMgr`: the account manager of the system runs as `AccountMgr.machine`;
* `Item.checkedFirst`: a step keeps what a login past the check relies on, unless its search failed;
* `fails_closed`: in a run in which every search finds its service, only logins that have been
  checked change the tables of a node, and a check that found a record reached its node;
* `unchecked_login`: runs that log in without a check, and past a node that was not found.
-/

namespace LsServer.Login

open LsServer.Lib LsServer.Lua LsServer.Crypt LsServer.Cluster

variable {c : Conf}

/-! ## The account manager in the system -/

/-- The step of the account manager in a step of the system. -/
def accountItem (i : Item c) : Option AccountMgr.Item :=
  (accountEvent i.pre i.ev).bind (AccountMgr.machine.itemAt i.pre.accountMgr)

/-- What a step of the system does to the account manager: nothing, or the step `x`. -/
inductive Accounts (i : Item c) : Prop
  | quiet (hitem : accountItem i = none) (hpost : i.post.accountMgr = i.pre.accountMgr)
    (hanswers : i.post.accountAnswers = i.pre.accountAnswers) (hout : ∀ a, .account a ∉ i.out)
  | step (x : AccountMgr.Item) (hitem : accountItem i = some x)
    (hev : accountEvent i.pre i.ev = some x.ev) (hpre : x.pre = i.pre.accountMgr)
    (hpost : x.post = i.post.accountMgr)
    (hanswers : i.post.accountAnswers = x.out.foldl recordAnswer i.pre.accountAnswers)
    (hout : i.out = x.out.map .account)

/-- A step that the account manager gets to handle. -/
theorem accounts_of_accountStep {i : Item c} (s : State) {e : AccountMgr.Event}
    (hev : accountEvent i.pre i.ev = some e) (haccount : s.accountMgr = i.pre.accountMgr)
    (hanswers : s.accountAnswers = i.pre.accountAnswers)
    (h : accountStep s e = some (i.post, i.out)) : Accounts i := by
  obtain ⟨y, hy, hpost⟩ := Option.map_eq_some_iff.mp h
  obtain ⟨hs, hout⟩ := Prod.mk.inj hpost
  have hy' : AccountMgr.machine.step i.pre.accountMgr e = some (y.1, y.2) := haccount ▸ hy
  have hitem : accountItem i = some ⟨_, e, y.1, y.2, hy'⟩ := by
    rw [accountItem, hev, Option.bind_some]
    exact Machine.itemAt_eq_some hy'
  refine .step _ hitem hev rfl (congrArg State.accountMgr hs) ?_ hout.symm
  rw [← hs, ← hanswers]

theorem Item.accounts (i : Item c) : Accounts i := by
  have hm := i.moved
  have hquiet : accountEvent i.pre i.ev = none → accountItem i = none := fun h => by
    rw [accountItem, h, Option.bind_none]
  generalize hev : i.ev = e, hpost : i.post = s', hout : i.out = acts at hm
  rw [hev] at hquiet
  cases hm with
  | frame he h =>
    refine .quiet (hquiet he) (hpost ▸ h.accountMgr) (hpost ▸ h.accountAnswers) fun a ha => ?_
    obtain ⟨l, x, hx⟩ := h.acts _ (hout ▸ ha)
    exact absurd hx (by simp)
  | account h =>
    exact accounts_of_accountStep i.pre (by rw [hev]; rfl) rfl rfl (by rw [hpost, hout]; exact h)
  | check hf hp h =>
    refine accounts_of_accountStep (setPhase i.pre _ _ _) ?_ rfl rfl (by rw [hpost, hout]; exact h)
    rw [hev, accountEvent, hf, Option.map_some]
  | gate | received | found | unchecked | checked | agent | agentRefuses | done =>
    exact .quiet (hquiet rfl) (by rw [hpost]; rfl) (by rw [hpost]; rfl) (by simp [hout])

/-- **The account manager of the system runs as its own machine.** -/
theorem Run.accountMgr {tr : List (Item c)} {s : State} (h : (machine c).Run tr s) :
    AccountMgr.machine.Run (tr.filterMap accountItem) s.accountMgr := by
  refine Machine.Run.history
    (J := fun tr s => AccountMgr.machine.Run (tr.filterMap accountItem) s.accountMgr)
    (.nil _) (fun tr i _ hJ => ?_) h
  rw [List.filterMap_append]
  cases Item.accounts i with
  | quiet hitem hpost =>
    rw [List.filterMap_cons_none hitem, List.filterMap_nil, List.append_nil, hpost]
    exact hJ
  | step x hitem _ hpre hpost =>
    rw [List.filterMap_cons_some hitem, List.filterMap_nil, ← hpost]
    exact hJ.snoc x hpre


/-! ## What a login relies on -/

/-- The service of a `remoteCall` was not found. -/
def Event.NotFound : Event → Prop
  | .search _ r => remoteCall r (bytes "checkRepetitionLogin") = .absent
  | .account (.search _ r) => remoteCall r (bytes "kick") = .absent
  | _ => False

/-- In the run `tr`, `checkRepetitionLogin` for the user `name` of `uid` at node `n` has run to its
end. -/
def Completed (tr : List (Item c)) (n : NodeName) (uid name : Bytes) : Prop :=
  ∃ i ∈ tr, ∃ k, .account (.store k uid n name) ∈ Machine.Item.out i ∧
    .account (.returned k) ∈ Machine.Item.out i

/-- Call `k` of the account manager is the check of the user `name` of `uid` at node `n`. -/
structure Checks (tr : List (Item c)) (s : State) (k : AccountMgr.CallId) (n : NodeName)
    (uid name : Bytes) : Prop where
  started : k < s.accountMgr.nextCall
  call : ∀ call, s.accountMgr.calls.get k = some call →
    call.uid = uid ∧ call.nodeName = n ∧ call.username = name
  answered : s.accountAnswers.get k = some true → Completed tr n uid name

/-- The login is past its check. -/
def Flow.Past (flow : Flow) : Prop :=
  flow.phase = .agent ∨ (∃ ok, flow.phase = .agentReplied ok) ∨ flow.phase = .answered true

/-- What the run knows of the login `flow`: its call while it is checked, the end of it later. -/
structure Flow.Accounted (tr : List (Item c)) (s : State) (flow : Flow) : Prop where
  checking : ∀ k, flow.phase = .checking k →
    Checks tr s k flow.node flow.uid flow.user.username
  past : flow.Past → Completed tr flow.node flow.uid flow.user.username

/-- **The invariant of the checks.** -/
structure CheckedFirst (tr : List (Item c)) (s : State) : Prop where
  waiting : ∀ k call, s.accountMgr.calls.get k = some call → k < s.accountMgr.nextCall
  ended : ∀ k ok, s.accountAnswers.get k = some ok → k < s.accountMgr.nextCall
  flows : ∀ f flow, s.flows.get f = some flow → flow.Accounted tr s

theorem Completed.append {tr : List (Item c)} {n : NodeName} {uid name : Bytes}
    (h : Completed tr n uid name) (tr' : List (Item c)) : Completed (tr ++ tr') n uid name := by
  obtain ⟨i, hi, k, hk⟩ := h
  exact ⟨i, List.mem_append_left _ hi, k, hk⟩

/-! ## The steps of the account manager -/

theorem foldl_recordAnswer_get {acts : List AccountMgr.Act} {t : Table AccountMgr.CallId Bool}
    {k : AccountMgr.CallId} {ok : Bool} (h : (acts.foldl recordAnswer t).get k = some ok) :
    t.get k = some ok ∨ (ok = true ∧ .returned k ∈ acts) ∨ (ok = false ∧ .raised k ∈ acts) := by
  induction acts generalizing t with
  | nil => exact .inl h
  | cons a acts ih =>
    rw [List.foldl_cons] at h
    rcases ih h with h | ⟨hok, h⟩ | ⟨hok, h⟩
    · cases a with
      | returned q =>
        rw [recordAnswer, Table.get_set] at h
        split at h
        · rename_i hkq
          exact .inr (.inl ⟨(Option.some.inj h).symm, by simp [hkq]⟩)
        · exact .inl h
      | raised q =>
        rw [recordAnswer, Table.get_set] at h
        split at h
        · rename_i hkq
          exact .inr (.inr ⟨(Option.some.inj h).symm, by simp [hkq]⟩)
        · exact .inl h
      | kick | store => exact .inl h
    · exact .inr (.inl ⟨hok, List.mem_cons_of_mem _ h⟩)
    · exact .inr (.inr ⟨hok, List.mem_cons_of_mem _ h⟩)

/-- A call that returns has completed its check. -/
theorem completed_of_returned (tr : List (Item c)) {i : Item c} {x : AccountMgr.Item}
    (hpre : x.pre = i.pre.accountMgr) (hout : i.out = x.out.map .account)
    {k : AccountMgr.CallId} (hk : .returned k ∈ x.out) :
    ∃ n uid name, Completed (tr ++ [i]) n uid name ∧
      ((∃ call, i.pre.accountMgr.calls.get k = some call ∧ call.uid = uid ∧ call.nodeName = n ∧
        call.username = name) ∨
      k = i.pre.accountMgr.nextCall ∧ x.ev = .check uid n name) := by
  obtain ⟨uid, n, name, hstore, hcall⟩ := x.store_of_returned hk
  rw [hpre] at hcall
  refine ⟨n, uid, name, ⟨i, by simp, k, ?_, ?_⟩, hcall⟩
  · rw [hout]
    exact List.mem_map_of_mem hstore
  · rw [hout]
    exact List.mem_map_of_mem hk

/-- A check stays the check it is. -/
theorem Checks.step {tr : List (Item c)} {i : Item c} {k : AccountMgr.CallId} {n : NodeName}
    {uid name : Bytes} (h : Checks tr i.pre k n uid name) :
    Checks (tr ++ [i]) i.post k n uid name := by
  cases Item.accounts i with
  | quiet _ hpost hanswers =>
    obtain ⟨hstarted, hcall, hanswered⟩ := h
    refine ⟨hpost ▸ hstarted, hpost ▸ hcall, fun ha => ?_⟩
    rw [hanswers] at ha
    exact (hanswered ha).append _
  | step x _ _ hpre hpost hanswers hout =>
    refine ⟨?_, fun call' hk => ?_, fun ha => ?_⟩
    · have hle := x.nextCall_le
      rw [hpre, hpost] at hle
      exact lt_of_lt_of_le h.started hle
    · rw [← hpost] at hk
      rcases x.calls_post hk with ⟨call, hcall, h1, h2, h3⟩ | ⟨hnew, -⟩
      · rw [h1, h2, h3]
        exact h.call call (hpre ▸ hcall)
      · rw [hpre] at hnew
        exact absurd hnew h.started.ne
    · rw [hanswers] at ha
      rcases foldl_recordAnswer_get ha with ha | ⟨-, hret⟩ | ⟨hfalse, -⟩
      · exact (h.answered ha).append _
      · obtain ⟨n', uid', name', hdone, ⟨call, hcall, rfl, rfl, rfl⟩ | ⟨hnew, -⟩⟩ :=
          completed_of_returned tr hpre hout hret
        · obtain ⟨h1, h2, h3⟩ := h.call call hcall
          rwa [h1, h2, h3] at hdone
        · exact absurd hnew h.started.ne
      · exact absurd hfalse (by simp)


/-- A call that ends has been started. -/
theorem lt_nextCall_of_ended {x : AccountMgr.Item} {k : AccountMgr.CallId}
    (hwaiting : ∀ k call, x.pre.calls.get k = some call → k < x.pre.nextCall)
    (h : .returned k ∈ x.out ∨ .raised k ∈ x.out) : k < x.post.nextCall := by
  have hle := x.nextCall_le
  have hc := x.checked
  generalize x.pre = a, x.ev = e, x.post = a', x.out = acts at hc h hwaiting hle
  cases hc with
  | first =>
    obtain rfl : k = a.nextCall := by simpa using h
    exact Nat.lt_succ_self _
  | @absent q _ _ hq | @noMethod q _ _ hq | @replied q _ hq | @failed q _ hq =>
    obtain rfl : k = q := by simpa using h
    exact lt_of_lt_of_le (hwaiting k _ hq) hle
  | suspended | request => exact absurd h (by simp)

/-- The calls that wait, and those that have ended, have been started. -/
theorem CheckedFirst.calls {tr : List (Item c)} {i : Item c} (h : CheckedFirst tr i.pre) :
    (∀ k call, i.post.accountMgr.calls.get k = some call → k < i.post.accountMgr.nextCall) ∧
      ∀ k ok, i.post.accountAnswers.get k = some ok → k < i.post.accountMgr.nextCall := by
  cases Item.accounts i with
  | quiet _ hpost hanswers =>
    rw [hpost, hanswers]
    exact ⟨h.waiting, h.ended⟩
  | step x _ _ hpre hpost hanswers =>
    have hle := x.nextCall_le
    have hwaiting := h.waiting
    rw [← hpre] at hwaiting
    rw [← hpost, hanswers]
    constructor
    · intro k call hk
      rcases x.calls_post hk with ⟨call, hcall, -⟩ | ⟨rfl, hev⟩
      · exact lt_of_lt_of_le (hwaiting k call hcall) hle
      · have hc := x.checked
        rw [hev] at hc
        generalize x.post = a', x.out = acts at hc
        cases hc <;> exact Nat.lt_succ_self _
    · intro k ok hk
      rcases foldl_recordAnswer_get hk with hk | ⟨-, hret⟩ | ⟨-, hraised⟩
      · exact lt_of_lt_of_le (hpre ▸ h.ended k ok hk) hle
      · exact lt_nextCall_of_ended hwaiting (.inl hret)
      · exact lt_nextCall_of_ended hwaiting (.inr hraised)

/-! ## The steps of a login -/

/-- The flows that moved on are known, the others as before. -/
theorem CheckedFirst.step {tr : List (Item c)} {i : Item c} (h : CheckedFirst tr i.pre)
    (hflows : ∀ f flow', i.post.flows.get f = some flow' → flow'.Accounted (tr ++ [i]) i.post ∨
      ∃ flow, i.pre.flows.get f = some flow ∧ flow.Same flow') :
    CheckedFirst (tr ++ [i]) i.post := by
  obtain ⟨hwaiting, hended⟩ := h.calls
  refine ⟨hwaiting, hended, fun f flow' hf => ?_⟩
  rcases hflows f flow' hf with hnew | ⟨flow, hf₁, hsame⟩
  · exact hnew
  · have huid : flow'.uid = flow.uid := congrArg GameUser.uid hsame.user
    obtain ⟨hchecking, hpast⟩ := h.flows f flow hf₁
    refine ⟨fun k hp => ?_, fun hp => ?_⟩
    · rw [hsame.phase] at hp
      rw [hsame.node, huid, hsame.user]
      exact (hchecking k hp).step
    · rw [Flow.Past, hsame.phase] at hp
      rw [hsame.node, huid, hsame.user]
      exact (hpast hp).append _

/-- A step of one flow. -/
theorem CheckedFirst.set {tr : List (Item c)} {i : Item c} (h : CheckedFirst tr i.pre)
    {f : FlowId} (flow : Flow) (hflows : i.post.flows = i.pre.flows.set f flow)
    (hnew : flow.Accounted (tr ++ [i]) i.post) : CheckedFirst (tr ++ [i]) i.post := by
  refine h.step fun q flow' hq => ?_
  rw [hflows, Table.get_set] at hq
  split at hq
  · obtain rfl := Option.some.inj hq
    exact .inl hnew
  · exact .inr ⟨flow', hq, rfl, rfl, rfl⟩

/-- A login that has no call and is not past its check. -/
theorem Flow.Accounted.of_phase {tr : List (Item c)} {s : State} {flow : Flow}
    (h : flow.phase = .sent ∨ flow.phase = .searching ∨ flow.phase = .requested ∨
      flow.phase = .answered false) : flow.Accounted tr s := by
  refine ⟨fun k hp => ?_, fun hp => ?_⟩
  · rcases h with h | h | h | h <;> exact absurd (h.symm.trans hp) (by simp)
  · unfold Flow.Past at hp
    rcases h with h | h | h | h <;> simp [h] at hp

/-- A login past its check that goes on. -/
theorem Flow.Accounted.of_past {tr : List (Item c)} {s : State} {flow : Flow}
    (h : Completed tr flow.node flow.uid flow.user.username)
    (hp : ∀ k, flow.phase ≠ .checking k) : flow.Accounted tr s :=
  ⟨fun k hk => absurd hk (hp k), fun _ => h⟩

/-- The request of a login has reached the account manager. -/
theorem CheckedFirst.check {tr : List (Item c)} {i : Item c} (h : CheckedFirst tr i.pre)
    {uid n name : Bytes} (hev : accountEvent i.pre i.ev = some (.check uid n name)) :
    Checks (tr ++ [i]) i.post i.pre.accountMgr.nextCall n uid name := by
  have hnew : i.pre.accountMgr.calls.get i.pre.accountMgr.nextCall = none := by
    by_contra hne
    obtain ⟨call, hcall⟩ := Option.ne_none_iff_exists'.mp hne
    exact lt_irrefl _ (h.waiting _ call hcall)
  cases Item.accounts i with
  | quiet hitem =>
    rw [accountItem, hev, Option.bind_some] at hitem
    exact absurd ((Machine.itemAt_eq_some (M := AccountMgr.machine) rfl).symm.trans hitem)
      (by simp)
  | step x _ hx hpre hpost hanswers hout =>
    obtain hxev : AccountMgr.Event.check uid n name = x.ev := Option.some.inj (hev.symm.trans hx)
    refine ⟨?_, fun call' hk => ?_, fun ha => ?_⟩
    · have hc := x.checked
      rw [← hxev] at hc
      rw [← hpost, ← hpre]
      generalize x.post = a', x.out = acts at hc
      cases hc <;> exact Nat.lt_succ_self _
    · rw [← hpost] at hk
      rcases x.calls_post hk with ⟨call, hcall, -⟩ | ⟨-, hcall⟩
      · rw [hpre, hnew] at hcall
        exact absurd hcall (by simp)
      · rw [← hxev] at hcall
        obtain ⟨h1, h2, h3⟩ := AccountMgr.Event.check.inj hcall
        exact ⟨h1.symm, h2.symm, h3.symm⟩
    · rw [hanswers] at ha
      rcases foldl_recordAnswer_get ha with ha | ⟨-, hret⟩ | ⟨hfalse, -⟩
      · exact absurd (h.ended _ _ ha) (lt_irrefl _)
      · obtain ⟨n', uid', name', hdone, ⟨call, hcall, -⟩ | ⟨-, hcall⟩⟩ :=
          completed_of_returned tr hpre hout hret
        · rw [hnew] at hcall
          exact absurd hcall (by simp)
        · rw [← hxev] at hcall
          obtain ⟨rfl, rfl, rfl⟩ := AccountMgr.Event.check.inj hcall
          exact hdone
      · exact absurd hfalse (by simp)

/-- **A step keeps what the logins rely on**, unless a search finds nothing. -/
theorem Item.checkedFirst {tr : List (Item c)} (i : Item c) (hfound : ¬ i.ev.NotFound)
    (h : CheckedFirst tr i.pre) : CheckedFirst (tr ++ [i]) i.post := by
  have hm := i.moved
  obtain ⟨e, hev⟩ : ∃ e, i.ev = e := ⟨_, rfl⟩
  obtain ⟨s', hpost⟩ : ∃ s', i.post = s' := ⟨_, rfl⟩
  generalize i.out = acts at hm
  rw [hev, hpost] at hm
  rw [hev] at hfound
  cases hm with
  | frame _ hs =>
    refine h.step fun f flow' hf => ?_
    rw [hpost] at hf
    rcases hs.flows f flow' hf with hidle | hold
    · refine .inl (.of_phase ?_)
      rcases hidle with hp | hp <;> simp [hp]
    · exact .inr hold
  | account hs =>
    obtain ⟨-, hflows, -⟩ := accountStep_frame hs
    refine h.step fun f flow' hf => ?_
    rw [hpost, hflows] at hf
    exact .inr ⟨flow', hf, rfl, rfl, rfl⟩
  | gate =>
    refine h.step fun f flow' hf => ?_
    rw [hpost] at hf
    exact .inr ⟨flow', hf, rfl, rfl, rfl⟩
  | @received f flow =>
    exact h.set { flow with
      subid := (loginHandler (i.pre.nodes flow.node)).2, phase := .searching }
      (by rw [hpost]; rfl) (.of_phase (by simp))
  | @found f flow =>
    exact h.set { flow with phase := .requested } (by rw [hpost]; rfl) (.of_phase (by simp))
  | @check f flow _ _ hf hp hs =>
    obtain ⟨-, hflows, -⟩ := accountStep_frame hs
    refine h.set { flow with phase := .checking i.pre.accountMgr.nextCall }
      (by rw [hpost]; exact hflows) ⟨fun k hk => ?_, fun hpast => ?_⟩
    · obtain rfl := FlowPhase.checking.inj hk
      exact h.check (by rw [hev, accountEvent, hf, Option.map_some]; rfl)
    · simp [Flow.Past] at hpast
  | unchecked hf hp hr => exact absurd hr hfound
  | @checked f flow k hf hp hk =>
    have hdone := ((h.flows f flow hf).checking k hp).answered hk
    exact h.set { flow with
      agent := (findAgent (i.pre.nodes flow.node) flow.uid).2, phase := .agent }
      (by rw [hpost]; rfl)
      (.of_past (hdone.append _) (by simp))
  | @agent f flow g hf hp =>
    have hdone := (h.flows f flow hf).past (.inl hp)
    exact h.set { flow with phase := .agentReplied true } (by rw [hpost]; rfl)
      (.of_past (hdone.append _) (by simp))
  | @agentRefuses f flow hf hp =>
    have hdone := (h.flows f flow hf).past (.inl hp)
    exact h.set { flow with phase := .agentReplied false } (by rw [hpost]; rfl)
      (.of_past (hdone.append _) (by simp))
  | @done f flow g hf hp =>
    have hdone := (h.flows f flow hf).past (.inr (.inl ⟨true, hp⟩))
    exact h.set { flow with phase := .answered true } (by rw [hpost]; rfl)
      (.of_past (hdone.append _) (by simp))


theorem Run.checkedFirst {tr : List (Item c)} {s : State} (h : (machine c).Run tr s)
    (hfound : ∀ i ∈ tr, ¬ Event.NotFound (Machine.Item.ev i)) : CheckedFirst tr s := by
  refine Machine.Path.history (J := CheckedFirst) h ⟨nofun, nofun, nofun⟩ fun a i b hab hJ => ?_
  exact Item.checkedFirst i (hfound i (by simp [hab])) hJ

/-! ## Closed -/

/-- The user `name` is, or is not, in the same tables. -/
structure SameAt (g g' : Gamed) (name : Bytes) : Prop where
  online : g'.gate.gate.userOnline.get name = g.gate.gate.userOnline.get name
  mapped : g'.usernameMap.get name = g.usernameMap.get name
  named : ∀ a, (g'.agentNames a).get name = (g.agentNames a).get name

theorem SameAt.refl (g : Gamed) (name : Bytes) : SameAt g g name := ⟨rfl, rfl, fun _ => rfl⟩

/-- A change of one node only. -/
theorem sameAt_update {nodes : NodeName → Gamed} {n : NodeName} {g : Gamed} {name : Bytes}
    (h : SameAt (nodes n) g name) (m : NodeName) :
    SameAt (nodes m) (Function.update nodes n g m) name := by
  by_cases hm : m = n
  · subst hm
    rwa [Function.update_self]
  · rw [Function.update_of_ne hm]
    exact .refl _ _

/-- A step of a login changes the tables of its node at its own name only. -/
theorem sameAt_of_ne {nodes : NodeName → Gamed} {n m : NodeName} {g : Gamed} {name x : Bytes}
    (h : x ≠ name → SameAt (nodes n) g x) (hne : ¬ (m = n ∧ x = name)) :
    SameAt (nodes m) (Function.update nodes n g m) x := by
  by_cases hm : m = n
  · subst hm
    rw [Function.update_self]
    exact h fun hx => hne ⟨rfl, hx⟩
  · rw [Function.update_of_ne hm]
    exact .refl _ _

/-- **Who changes the tables of a node**: a login past its check, at its own name. -/
theorem Item.sameAt (i : Item c) (n : NodeName) (name : Bytes) :
    SameAt (i.pre.nodes n) (i.post.nodes n) name ∨
      ∃ f flow, i.pre.flows.get f = some flow ∧ flow.Past ∧ flow.node = n ∧
        flow.user.username = name := by
  have hm := i.moved
  generalize i.pre = s, i.ev = e, i.post = s', i.out = acts at hm
  cases hm with
  | frame _ hs => exact .inl (hs.nodes ▸ .refl _ _)
  | account hs | check _ _ hs =>
    obtain ⟨hnodes, -, -⟩ := accountStep_frame hs
    exact .inl (hnodes ▸ .refl _ _)
  | @gate m x hpre hlogin hlogout =>
    have hon := gate_userOnline x hlogin hlogout
    rw [hpre] at hon
    exact .inl (sameAt_update (g := { s.nodes m with gate := x.post })
      ⟨congrArg (Table.get · name) hon, rfl, fun _ => rfl⟩ n)
  | @received f flow =>
    exact .inl (sameAt_update (g := (loginHandler (s.nodes flow.node)).1)
      ⟨rfl, rfl, fun _ => rfl⟩ n)
  | found | agentRefuses => exact .inl (.refl _ _)
  | @unchecked f flow | @checked f flow =>
    obtain ⟨-, -, agentId, uidAgent, heq⟩ := findAgent_spec (s.nodes flow.node) flow.uid
    exact .inl (sameAt_update (g := (findAgent (s.nodes flow.node) flow.uid).1)
      (by rw [heq]; exact ⟨rfl, rfl, fun _ => rfl⟩) n)
  | @agent f flow g hf hp hg =>
    by_cases hne : n = flow.node ∧ name = flow.user.username
    · exact .inr ⟨f, flow, hf, .inl hp, hne.1.symm, hne.2.symm⟩
    · refine .inl (sameAt_of_ne (fun hx => ?_) hne)
      have hgrows := agentLogin_grows hg
      obtain ⟨-, rfl⟩ := agentLogin_eq_some hg
      exact ⟨rfl, rfl, fun a => hgrows.named a name hx⟩
  | @done f flow g hf hp hg =>
    by_cases hne : n = flow.node ∧ name = flow.user.username
    · exact .inr ⟨f, flow, hf, .inr (.inl ⟨true, hp⟩), hne.1.symm, hne.2.symm⟩
    · refine .inl (sameAt_of_ne (fun hx => ?_) hne)
      have hgrows := loginEnd_grows hg
      obtain ⟨-, -, hgate, -⟩ := loginEnd_eq_some hg
      refine ⟨?_, hgrows.mapped name hx, fun a => hgrows.named a name hx⟩
      rw [hgate]
      exact Table.get_set_ne hx

/-- `GameGate.login` is executed by a login past its check. -/
theorem Item.past_of_serverLogin (i : Item c) {n : NodeName} {uid name : Bytes}
    (h : .serverLogin n uid name ∈ i.out) : ∃ f flow, i.pre.flows.get f = some flow ∧
      flow.Past ∧ flow.node = n ∧ flow.uid = uid ∧ flow.user.username = name := by
  have hm := i.moved
  generalize i.pre = s, i.ev = e, i.post = s', i.out = acts at hm h
  cases hm with
  | frame _ hs => exact absurd h (hs.remote.not_serverLogin _ _ _)
  | account hs | check _ _ hs =>
    obtain ⟨-, -, hacts⟩ := accountStep_frame hs
    exact absurd h (hacts.not_serverLogin _ _ _)
  | gate => exact absurd h (by simp)
  | received | found | unchecked | checked | agent | agentRefuses => exact absurd h (by simp)
  | @done f flow g hf hp hg =>
    obtain ⟨rfl, rfl, rfl⟩ := Act.serverLogin.inj (List.mem_singleton.mp h)
    exact ⟨f, flow, hf, .inr (.inl ⟨true, hp⟩), rfl, rfl, rfl⟩

/-- The step starts call `k` of the account manager for the user `name`, and the call finds a
record of node `m`. -/
def Item.Finds (i : Item c) (k : AccountMgr.CallId) (m : NodeName) (name : Bytes) : Prop :=
  ∃ uid n, accountEvent i.pre i.ev = some (.check uid n name) ∧
    AccountMgr.kickNode i.pre.accountMgr uid = some m ∧ i.pre.accountMgr.nextCall = k

/-- The account manager gets a check from a login, everything else as its own event. -/
theorem accountEvent_eq_some {s : State} {e : Event} {x : AccountMgr.Event}
    (h : accountEvent s e = some x) (hx : ∀ uid n name, x ≠ .check uid n name) :
    e = .account x := by
  unfold accountEvent at h
  split at h
  · exact congrArg Event.account (Option.some.inj h)
  · obtain ⟨flow, -, heq⟩ := Option.map_eq_some_iff.mp h
    exact absurd heq.symm (hx _ _ _)
  · exact absurd h (by simp)

/-- What the account manager does in a step is done in the step. -/
theorem out_of_accountItem {i : Item c} {x : AccountMgr.Item} (h : accountItem i = some x)
    {a : AccountMgr.Act} (ha : a ∈ x.out) : .account a ∈ i.out := by
  cases Item.accounts i with
  | quiet hitem => exact absurd (hitem.symm.trans h) (by simp)
  | step y hitem _ _ _ _ hout =>
    obtain rfl := Option.some.inj (hitem.symm.trans h)
    rw [hout]
    exact List.mem_map_of_mem ha

/-- **A check that found a record reached its node**: the kick was requested there, and the check
returns with its answer. -/
theorem Run.reached {a b : List (Item c)} {j : Item c} {s : State}
    (h : (machine c).Run (a ++ j :: b) s) (hfound : ¬ j.ev.NotFound) {k : AccountMgr.CallId}
    (hk : .account (.returned k) ∈ j.out) {i : Item c} (hi : i ∈ a) {m : NodeName} {name : Bytes}
    (hf : i.Finds k m name) :
    j.ev = .account (.reply k true) ∧
      ∃ i' ∈ a, .account (.kick k m name) ∈ Machine.Item.out i' := by
  have hrun := Run.accountMgr h
  rw [List.filterMap_append] at hrun
  -- the step of the account manager in `j`
  cases Item.accounts j with
  | quiet _ _ _ hout => exact absurd hk (hout _)
  | step x hitem hev hpre _ _ hout =>
    rw [List.filterMap_cons_some hitem] at hrun
    rw [hout] at hk
    obtain ⟨act, hact, heq⟩ := List.mem_map.mp hk
    obtain rfl := Act.account.inj heq
    -- the step of the account manager in `i`
    obtain ⟨uid, n, hevi, hrec, hnext⟩ := hf
    cases Item.accounts i with
    | quiet hnone =>
      rw [accountItem, hevi, Option.bind_some] at hnone
      exact absurd ((Machine.itemAt_eq_some (M := AccountMgr.machine) rfl).symm.trans hnone)
        (by simp)
    | step y hitemi hevy hprey =>
      have hyev : AccountMgr.Event.check uid n name = y.ev :=
        Option.some.inj (hevi.symm.trans hevy)
      have hy : y.Finds k m name := by
        refine ⟨⟨uid, n, hyev.symm, ?_⟩, ?_⟩
        · rwa [hprey]
        · rwa [hprey]
      have hmem : y ∈ a.filterMap accountItem := List.mem_filterMap.mpr ⟨i, hi, hitemi⟩
      have hsearch : ∀ r, x.ev = .search k r → remoteCall r (bytes "kick") ≠ .absent := by
        intro r hx habsent
        rw [hx] at hev
        rw [accountEvent_eq_some hev (by simp)] at hfound
        exact hfound habsent
      obtain ⟨hreply, y', hy', hkick⟩ := AccountMgr.kick_of_returned hrun hact hsearch hmem hy
      obtain ⟨i', hi', hitem'⟩ := List.mem_filterMap.mp hy'
      rw [hreply] at hev
      exact ⟨accountEvent_eq_some hev (by simp), i', hi', out_of_accountItem hitem' hkick⟩

/-- **Logins fail closed** where every search finds its service: only a login that has been checked
changes a table of a node, executes `GameGate.login` or is answered with a `subid`, and a check that
found a record returns only after it has reached its node. -/
theorem fails_closed {tr : List (Item c)} {s : State} (h : (machine c).Run tr s)
    (hfound : ∀ i ∈ tr, ¬ Event.NotFound (Machine.Item.ev i)) :
    (∀ a i b, tr = a ++ i :: b →
      (∀ n name, ¬ SameAt (i.pre.nodes n) (i.post.nodes n) name →
        ∃ uid subid, name = GameGate.username uid (tostring subid) n ∧ Completed a n uid name) ∧
      (∀ n uid name, .serverLogin n uid name ∈ i.out → Completed a n uid name) ∧
      ∀ f flow, i.ev = .answer f → i.pre.flows.get f = some flow →
        flow.phase = .answered true →
          Completed a flow.node flow.uid flow.user.username) ∧
    ∀ a j b, tr = a ++ j :: b → ∀ k, .account (.returned k) ∈ j.out →
      ∀ i ∈ a, ∀ m name, Item.Finds i k m name →
        j.ev = .account (.reply k true) ∧
          ∃ i' ∈ a, .account (.kick k m name) ∈ Machine.Item.out i' := by
  constructor
  · rintro a i b rfl
    have hpre : CheckedFirst a i.pre :=
      Run.checkedFirst h.split.1 fun j hj => hfound j (by simp [hj])
    have hpast : ∀ f flow, i.pre.flows.get f = some flow → flow.Past →
        Completed a flow.node flow.uid flow.user.username := fun f flow hf =>
      (hpre.flows f flow hf).past
    refine ⟨fun n name hne => ?_, fun n uid name hlogin => ?_, fun f flow _ hf hp => ?_⟩
    · obtain ⟨f, flow, hf, hp, rfl, rfl⟩ := (Item.sameAt i n name).resolve_left hne
      exact ⟨flow.uid, flow.subid, rfl, hpast f flow hf hp⟩
    · obtain ⟨f, flow, hf, hp, rfl, rfl, rfl⟩ := Item.past_of_serverLogin i hlogin
      exact hpast f flow hf hp
    · exact hpast f flow hf (.inr (.inr hp))
  · rintro a j b rfl k hk i hi m name hf
    exact Run.reached h (hfound j (by simp)) hk hi hf


/-! ## Logins that are not checked -/

instance : DecidablePred Event.NotFound
  | .search _ r => inferInstanceAs (Decidable (remoteCall r _ = .absent))
  | .account (.search _ r) => inferInstanceAs (Decidable (remoteCall r _ = .absent))
  | .account (.check _ _ _) | .account (.reply _ _) | .login _ _ | .call _ _ _ | .receive _
  | .check _ | .checked _ _ | .agent _ | .agentDone _ | .agentFails _ | .answer _ | .callFails _
  | .lost _ | .gate _ _ => .isFalse id

/-- A login at node `game1`, which does not reach the logic center. -/
def uncheckedLogin : List Event :=
  accepted 0 (bytes "game1") ++
    [.receive 0, .search 0 .queryFails, .agent 0, .agentDone 0, .answer 0]

/-- A second login, at node `game2`, while node `game1` is not reached. -/
def unreachedLogin : List Event :=
  firstLogin ++ accepted 1 (bytes "game2") ++
    [.receive 1, .search 1 (.bound (some ⟨[bytes "checkRepetitionLogin"]⟩)), .check 1,
      .account (.search 1 .snaxFails), .checked 1 true, .agent 1, .agentDone 1, .answer 1]

/-- **Logins without a check**, and past a node on record that was not reached. -/
theorem unchecked_login :
    (∃ (tr : List (Item someConf)) (s : State), (machine someConf).Run tr s ∧
      tr.map (·.ev) = uncheckedLogin ∧
      (∃ i ∈ tr, .serverLogin (bytes "game1") (bytes "account") (accountName (bytes "game1")) ∈
        i.out) ∧ ∀ n uid name, ¬ Completed tr n uid name) ∧
    ∃ (tr : List (Item someConf)) (s : State), (machine someConf).Run tr s ∧
      tr.map (·.ev) = unreachedLogin ∧
      (∃ i ∈ tr, Item.Finds i 1 (bytes "game1") (accountName (bytes "game2"))) ∧
      (∃ j ∈ tr, j.ev = .account (.search 1 .snaxFails) ∧ .account (.returned 1) ∈ j.out) ∧
      ∃ i ∈ tr, .serverLogin (bytes "game2") (bytes "account") (accountName (bytes "game2")) ∈
        i.out := by
  constructor
  · have h : ((machine someConf).items (machine someConf).init uncheckedLogin).map (fun tr =>
        decide (tr.map (·.ev) = uncheckedLogin ∧
          (∃ i ∈ tr, .serverLogin (bytes "game1") (bytes "account")
            (accountName (bytes "game1")) ∈ i.out) ∧
          ∀ i ∈ tr, accountEvent i.pre i.ev = none)) = some true := by
      decide +kernel
    obtain ⟨tr, hrun, hP⟩ := Machine.exists_run h
    obtain ⟨hev, hlogin, hnone⟩ := of_decide_eq_true hP
    refine ⟨tr, _, hrun, hev, hlogin, ?_⟩
    rintro n uid name ⟨i, hi, k, hstore, -⟩
    cases Item.accounts i with
    | quiet _ _ _ hout => exact hout _ hstore
    | step x _ hx => exact absurd ((hnone i hi).symm.trans hx) (by simp)
  · have h : ((machine someConf).items (machine someConf).init unreachedLogin).map (fun tr =>
        decide (tr.map (·.ev) = unreachedLogin ∧
          (∃ i ∈ tr, accountEvent i.pre i.ev = some (.check (bytes "account") (bytes "game2")
            (accountName (bytes "game2"))) ∧
            AccountMgr.kickNode i.pre.accountMgr (bytes "account") = some (bytes "game1") ∧
            i.pre.accountMgr.nextCall = 1) ∧
          (∃ j ∈ tr, j.ev = .account (.search 1 .snaxFails) ∧ .account (.returned 1) ∈ j.out) ∧
          ∃ i ∈ tr, .serverLogin (bytes "game2") (bytes "account")
            (accountName (bytes "game2")) ∈ i.out)) = some true := by
      decide +kernel
    obtain ⟨tr, hrun, hP⟩ := Machine.exists_run h
    obtain ⟨hev, ⟨i, hi, hcheck⟩, hret, hlogin⟩ := of_decide_eq_true hP
    exact ⟨tr, _, hrun, hev, ⟨i, hi, _, _, hcheck⟩, hret, hlogin⟩

theorem fails_closed_secondLogin : ∃ (tr : List (Item someConf)) (s : State),
    (machine someConf).Run tr s ∧ tr.map (·.ev) = firstLogin ++ secondLogin ∧
      ∀ a i b, tr = a ++ i :: b → ∀ n uid name, .serverLogin n uid name ∈ i.out →
        Completed a n uid name := by
  obtain ⟨tr, s, hrun, hev, -⟩ := secondLogin_run
  have hall : ∀ e ∈ firstLogin ++ secondLogin, ¬ e.NotFound := by decide
  have hfound : ∀ i ∈ tr, ¬ Event.NotFound (Machine.Item.ev i) := fun i hi =>
    hall _ (hev ▸ List.mem_map_of_mem hi)
  exact ⟨tr, s, hrun, hev, fun a i b hab => ((fails_closed hrun hfound).1 a i b hab).2.1⟩

end LsServer.Login
