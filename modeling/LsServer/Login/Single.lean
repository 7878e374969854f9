import LsServer.Login.System

/-!
# One login per account

A second login of an account should replace the first one, wherever that was. The account manager
sends a kick to the node of the first login, but `kick_handler` is empty, a kick that fails is
ignored, and no part of the system calls `GameGate.logout`. So an account stays online under every
username it ever got.

Source: the comment at AccountMgr.lua 32, which says that a second login kicks the first; Gamed.lua
`server.kick_handler` 80-82, which is empty.

* `Online n uid name`: the gate of node `n` has the user `name` of the account `uid`.
* `SingleLogin`: an account has at most one username online in the whole system. In `two_logins` it
  fails although no login is under way (`Quiet`), so that is not for the time between a kick and the
  end of a login.
* `Item.LogsInAgain` is the condition: a step ends a login of an account that is online somewhere.
* `Mapped`: what is online at a gate is in `username_map`, so its account is known.

A user stays online after its connection has gone: only `server.logout` would end that, and nobody
calls it.

Results:
* `Item.online_iff`, `Item.serverLogin_fresh`: a step adds the user of the login that it ends, who
  is new;
* `singleLogin_iff`: an account has at most one username online exactly if no step of the run ended
  a login of it while it was online;
* `two_logins`: a run after which an account is online at two nodes and no login is in flight.
-/

namespace LsServer.Login

open LsServer.Lib LsServer.Lua LsServer.Crypt LsServer.Cluster

/-- The account `uid` is in `user_online` of node `n` under `name`. -/
def Online (s : State) (n : NodeName) (uid name : Bytes) : Prop :=
  (s.nodes n).gate.gate.userOnline.get name ≠ none ∧ ∃ subid, name = GameGate.username uid subid n

/-- `uid` has at most one online username, at one node. -/
def SingleLogin (s : State) (uid : Bytes) : Prop :=
  ∀ n name n' name', Online s n uid name → Online s n' uid name' → n = n' ∧ name = name'

/-- No login flow for `uid` is in flight. -/
def Quiet (s : State) (uid : Bytes) : Prop :=
  ∀ f flow, s.flows.get f = some flow → flow.uid ≠ uid

variable {c : Conf}

/-- The step executes `GameGate.login` for `uid`, which is online at some node already. -/
def Item.LogsInAgain (i : Item c) (uid : Bytes) : Prop :=
  (∃ n name, .serverLogin n uid name ∈ i.out) ∧ ∃ n name, Online i.pre n uid name

/-- Every online user of every node is in its `username_map`. -/
def Mapped (s : State) : Prop := ∀ n, (s.nodes n).Mapped

theorem Item.mapped (i : Item c) (h : Mapped i.pre) : Mapped i.post := by
  intro n name hname
  cases i.users with
  | quiet hnodes =>
    rw [(hnodes n).mapped]
    exact h n name ((hnodes n).online ▸ hname)
  | @login m uid secret subid agent g hg hnodes =>
    rw [hnodes] at hname ⊢
    by_cases hn : n = m
    · subst hn
      rw [Function.update_self] at hname ⊢
      exact (loginEnd_online (h n) hg).2.1 name hname
    · rw [Function.update_of_ne hn] at hname ⊢
      exact h n name hname

theorem Run.mapped {tr : List (Item c)} {s : State} (h : (machine c).Run tr s) : Mapped s :=
  Machine.Run.invariant (fun _ => Gamed.init_mapped) (fun i => Item.mapped i) h

/-- **Who is online after a step**: who was before, and the user that the step logs in. -/
theorem Item.online_iff (i : Item c) (h : Mapped i.pre) (n : NodeName) (uid name : Bytes) :
    Online i.post n uid name ↔ Online i.pre n uid name ∨ .serverLogin n uid name ∈ i.out := by
  unfold Online
  cases i.users with
  | quiet hnodes hacts => simp [(hnodes n).online, hacts]
  | @login m uid' secret subid agent g hg hnodes hacts =>
    obtain ⟨-, -, hon⟩ := loginEnd_online (h m) hg
    rw [hnodes, hacts, List.mem_singleton]
    by_cases hn : n = m
    · subst hn
      rw [Function.update_self, hon]
      constructor
      · rintro ⟨hpre | rfl, sub, hname⟩
        · exact Or.inl ⟨hpre, sub, hname⟩
        · obtain ⟨rfl, -, -⟩ := username_inj hname
          exact Or.inr rfl
      · rintro (⟨hpre, hname⟩ | hact)
        · exact ⟨Or.inl hpre, hname⟩
        · obtain ⟨-, rfl, rfl⟩ := Act.serverLogin.inj hact
          exact ⟨Or.inr rfl, tostring subid, rfl⟩
    · rw [Function.update_of_ne hn]
      constructor
      · exact Or.inl
      · rintro (hpre | hact)
        · exact hpre
        · exact absurd (Act.serverLogin.inj hact).1 hn

/-- The user that a step logs in was not online. -/
theorem Item.serverLogin_fresh (i : Item c) (h : Mapped i.pre) {n : NodeName} {uid name : Bytes}
    (ha : .serverLogin n uid name ∈ i.out) : ¬ Online i.pre n uid name := by
  cases i.users with
  | quiet _ hacts => exact absurd ha (hacts n uid name)
  | @login m uid' secret subid agent g hg hnodes hacts =>
    rw [hacts, List.mem_singleton] at ha
    obtain ⟨rfl, rfl, rfl⟩ := Act.serverLogin.inj ha
    exact fun hon => hon.1 (loginEnd_online (h n) hg).1

/-- Two logins of one step are one. -/
theorem Item.serverLogin_unique (i : Item c) {n n' : NodeName} {uid name name' : Bytes}
    (h : .serverLogin n uid name ∈ i.out) (h' : .serverLogin n' uid name' ∈ i.out) :
    n = n' ∧ name = name' := by
  cases i.users with
  | quiet _ hacts => exact absurd h (hacts n uid name)
  | login _ _ hacts =>
    rw [hacts, List.mem_singleton] at h h'
    obtain ⟨h1, -, h2⟩ := Act.serverLogin.inj (h.trans h'.symm)
    exact ⟨h1, h2⟩

/-- One step keeps a single login, unless it logs in again. -/
theorem Item.singleLogin (i : Item c) (hm : Mapped i.pre) {uid : Bytes}
    (h : SingleLogin i.pre uid) : SingleLogin i.post uid ↔ ¬ i.LogsInAgain uid := by
  have hon := i.online_iff hm
  constructor
  · rintro hpost ⟨⟨n, name, hact⟩, n', name', hpre⟩
    -- the new user next to the old one
    obtain ⟨rfl, rfl⟩ := hpost n name n' name' ((hon _ _ _).mpr (Or.inr hact))
      ((hon _ _ _).mpr (Or.inl hpre))
    exact i.serverLogin_fresh hm hact hpre
  · intro hagain n name n' name' h1 h2
    rcases (hon _ _ _).mp h1 with h1 | h1
    · rcases (hon _ _ _).mp h2 with h2 | h2
      · exact h n name n' name' h1 h2
      · exact absurd ⟨⟨n', name', h2⟩, n, name, h1⟩ hagain
    · rcases (hon _ _ _).mp h2 with h2 | h2
      · exact absurd ⟨⟨n, name, h1⟩, n', name', h2⟩ hagain
      · exact i.serverLogin_unique h1 h2

/-- Users stay online. -/
theorem Item.singleLogin_mono (i : Item c) (hm : Mapped i.pre) {uid : Bytes}
    (h : SingleLogin i.post uid) : SingleLogin i.pre uid := fun n name n' name' h1 h2 =>
  h n name n' name' ((i.online_iff hm n uid name).mpr (Or.inl h1))
    ((i.online_iff hm n' uid name').mpr (Or.inl h2))

/-- **When an account has one login**: in every state of every run, so also when no login of it is
in flight. -/
theorem singleLogin_iff {tr : List (Item c)} {s : State} (h : (machine c).Run tr s)
    (uid : Bytes) : SingleLogin s uid ↔ ∀ i ∈ tr, ¬ Item.LogsInAgain i uid := by
  refine Machine.Run.history
    (J := fun tr s => SingleLogin s uid ↔ ∀ i ∈ tr, ¬ Item.LogsInAgain i uid) ?_ ?_ h
  · refine iff_of_true ?_ (by simp)
    intro n name _ _ hon
    exact absurd rfl hon.1
  · intro tr i hrun hJ
    have hm : Mapped i.pre := Run.mapped hrun
    have hlast : (∀ j ∈ tr ++ [i], ¬ Item.LogsInAgain j uid) ↔
        (∀ j ∈ tr, ¬ Item.LogsInAgain j uid) ∧ ¬ Item.LogsInAgain i uid := by
      simp only [List.mem_append, List.mem_singleton, or_imp, forall_and, forall_eq]
    rw [hlast, ← hJ]
    constructor
    · intro hpost
      have hpre := Item.singleLogin_mono i hm hpost
      exact ⟨hpre, (Item.singleLogin i hm hpre).mp hpost⟩
    · rintro ⟨hpre, hagain⟩
      exact (Item.singleLogin i hm hpre).mpr hagain

/-! ## Two logins of one account -/

/-- A client passes the handshake with login server 0 and is accepted as `account` at node `n`. -/
def accepted (k : ConnId) (n : NodeName) : List Event :=
  [.login 0 .accept, .login 0 (.started k 1), .login 0 (.line k (some (bytes "BQAAAAAAAAA=")) 1),
    .login 0 (.line k (some (bytes "t+KQEj/MZ28=")) 0),
    .login 0 (.line k (some (bytes "D3va7RKOSKtLNIshoUXlug==")) 0),
    .login 0 (.authed k (.accepts n (bytes "account"))), .login 0 (.resume k)]

/-- The first login, at node `game1`. -/
def firstLogin : List Event :=
  accepted 0 (bytes "game1") ++
    [.receive 0, .search 0 (.bound (some ⟨[bytes "checkRepetitionLogin"]⟩)), .check 0,
      .checked 0 true, .agent 0, .agentDone 0, .answer 0]

/-- The second login, at node `game2`, which kicks at `game1`. -/
def secondLogin : List Event :=
  accepted 1 (bytes "game2") ++
    [.receive 1, .search 1 (.bound (some ⟨[bytes "checkRepetitionLogin"]⟩)), .check 1,
      .account (.search 1 (.bound (some ⟨[bytes "kick"]⟩))), .account (.reply 1 true),
      .checked 1 true, .agent 1, .agentDone 1, .answer 1]

/-- Nodes that listen somewhere. -/
def someConf : Conf := ⟨{}, fun _ => bytes "127.0.0.1", fun _ => bytes "8888"⟩

def accountName (n : NodeName) : Bytes := GameGate.username (bytes "account") (tostring 1) n

theorem quiet_of_entries {s : State} (h : s.flows.entries = []) (uid : Bytes) : Quiet s uid := by
  intro f flow hf
  have := Table.mem_entries.mpr hf
  rw [h] at this
  exact absurd this (by simp)

theorem secondLogin_run : ∃ (tr : List (Item someConf)) (s : State),
    (machine someConf).Run tr s ∧ tr.map (·.ev) = firstLogin ++ secondLogin ∧
      s.flows.entries = [] ∧
      (s.nodes (bytes "game1")).gate.gate.userOnline.get (accountName (bytes "game1")) ≠ none ∧
      (s.nodes (bytes "game2")).gate.gate.userOnline.get (accountName (bytes "game2")) ≠ none := by
  have h : ((machine someConf).items (machine someConf).init (firstLogin ++ secondLogin)).map
      (fun tr =>
        let s := Machine.last (machine someConf).init tr
        decide (tr.map (·.ev) = firstLogin ++ secondLogin ∧ s.flows.entries = [] ∧
          (s.nodes (bytes "game1")).gate.gate.userOnline.get (accountName (bytes "game1")) ≠ none ∧
          (s.nodes (bytes "game2")).gate.gate.userOnline.get (accountName (bytes "game2")) ≠
            none)) = some true := by
    decide +kernel
  obtain ⟨tr, hrun, hP⟩ := Machine.exists_run h
  exact ⟨tr, _, hrun, of_decide_eq_true hP⟩

/-- **An account online at two nodes**, and no login in flight. -/
theorem two_logins : ∃ (tr : List (Item someConf)) (s : State), (machine someConf).Run tr s ∧
    tr.map (·.ev) = firstLogin ++ secondLogin ∧ Quiet s (bytes "account") ∧
      ¬ SingleLogin s (bytes "account") := by
  obtain ⟨tr, s, hrun, hev, hflows, h1, h2⟩ := secondLogin_run
  refine ⟨tr, s, hrun, hev, quiet_of_entries hflows _, fun hs => ?_⟩
  have := hs _ _ _ _ ⟨h1, tostring 1, rfl⟩ ⟨h2, tostring 1, rfl⟩
  exact absurd this.1 (by decide)

theorem firstLogin_run : ∃ (tr : List (Item someConf)) (s : State),
    (machine someConf).Run tr s ∧ tr.map (·.ev) = firstLogin ∧ s.flows.entries = [] ∧
      (s.nodes (bytes "game1")).gate.gate.userOnline.get (accountName (bytes "game1")) ≠
        none := by
  have h : ((machine someConf).items (machine someConf).init firstLogin).map (fun tr =>
      let s := Machine.last (machine someConf).init tr
      decide (tr.map (·.ev) = firstLogin ∧ s.flows.entries = [] ∧
        (s.nodes (bytes "game1")).gate.gate.userOnline.get (accountName (bytes "game1")) ≠
          none)) = some true := by
    decide +kernel
  obtain ⟨tr, hrun, hP⟩ := Machine.exists_run h
  exact ⟨tr, _, hrun, of_decide_eq_true hP⟩

theorem singleLogin_iff_firstLogin : ∃ (tr : List (Item someConf)) (s : State),
    (machine someConf).Run tr s ∧ tr.map (·.ev) = firstLogin ∧ Quiet s (bytes "account") ∧
      Online s (bytes "game1") (bytes "account") (accountName (bytes "game1")) ∧
      (SingleLogin s (bytes "account") ↔ ∀ i ∈ tr, ¬ Item.LogsInAgain i (bytes "account")) := by
  obtain ⟨tr, s, hrun, hev, hflows, hon⟩ := firstLogin_run
  exact ⟨tr, s, hrun, hev, quiet_of_entries hflows _, ⟨hon, tostring 1, rfl⟩,
    singleLogin_iff hrun _⟩

end LsServer.Login
