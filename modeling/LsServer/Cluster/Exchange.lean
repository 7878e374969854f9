import LsServer.Cluster.Told

/-!
# Cluster calls: each request once, each response to its caller

What a run of the calls has shown so far, `Told`, is kept apart from what is under way, `Now` for
the connection and `Carries` for those before it. A session is given to one request, so a response
finds the caller of its request, and a caller that waits has its request, or its response, on the
way.

* The session 0 is shared by all pushes that are not cut, so the sessions that a connection carries
  are counted without it (`carried`).
* Nobody waits for a push. So a push that the agent has handed on leaves nothing behind, while a
  call stays carried from its request to its response, and its caller waits for exactly that time.
* An agent that exits stops; what was on its way to it stays there. So nothing is lost without a
  trace: a request is taken by an agent, or it can be pointed at.

Results:
* `Carries.arrived`, `Carries.lookup`, `Carries.finish`: what an agent does to its connection;
* `Live.respond`, `Live.write`: what is written while callers wait;
* `Inv.request`, `Inv.written`, `Inv.agent`, `Inv.reply`, `Inv.close`: what each event keeps;
* `cluster_calls`: requests are taken once, as they were written; what a caller gets is the response
  to its request; nobody waits in vain.

Out of scope: that a service answers at all, and in what order requests are taken.
-/

namespace LsServer.Cluster.Call

open LsServer.Lua LsServer.Lib LsServer.Lib.Fragments

variable {out : List Act} {fresh : Nat → Prop} {thread : Table Nat Waiting}

/-! ## What is under way -/

/-- A connection with the requests `ps` under way; its agent waits for calls that it has taken. -/
structure Carries (out : List Act) (c : Conn) (ps : List RequestParcel) : Prop where
  underway : Underway c ps
  tasks : ∀ p ∈ c.agent.tasks, Taken out p ∧ p.label.2 = false

/-- The sessions of requests under way, of those in hand and of responses on their way. -/
def carried (ps tasks : List RequestParcel) (rs : List ResponseParcel) : List Nat :=
  (ps.map Parcel.id ++ (tasks.map Parcel.id ++ rs.map Parcel.id)).filter fun n => n ≠ 0

/-- **The connection of those that wait.** -/
structure Live (out : List Act) (thread : Table Nat Waiting) (c : Conn) (ps : List RequestParcel)
    (rs : List ResponseParcel) : Prop extends Carries out c ps where
  responses : Responses thread c rs
  answered : ∀ r ∈ rs, .answered r ∈ out
  nodup : (carried ps c.agent.tasks rs).Nodup
  waiting : ∀ n w, thread.get n = some w → n ∈ carried ps c.agent.tasks rs
  call : ∀ co p, .issued (some co) p ∈ out → p.id ∈ carried ps c.agent.tasks rs →
    thread.get p.id ≠ none

def Now (out : List Act) (thread : Table Nat Waiting) (conn : Option Conn)
    (ps : List RequestParcel) : Prop :=
  match conn with
  | none => ps = [] ∧ ∀ n, thread.get n = none
  | some c => ∃ rs, Live out thread c ps rs

theorem Carries.mono {out out' : List Act} {c : Conn} {ps : List RequestParcel}
    (h : Carries out c ps) (hout : out ⊆ out') : Carries out' c ps :=
  ⟨h.underway, fun p hp => ⟨(h.tasks p hp).1.mono hout, (h.tasks p hp).2⟩⟩

theorem carries_init (out : List Act) : Carries out .init [] :=
  ⟨underway_init, by simp [Conn.init, Agent.init]⟩

/-- One of the connections before, taken out and put back. -/
theorem replace_carries {cs : List Conn} {qss : List (List RequestParcel)}
    (h : List.Forall₂ (Carries out) cs qss) {n : Nat} {c : Conn} (hc : cs[n]? = some c) :
    ∃ ps rest, Carries out c ps ∧ qss.flatten.Perm (ps ++ rest) ∧
      ∀ out' c' ps', out ⊆ out' → Carries out' c' ps' →
        ∃ qss', List.Forall₂ (Carries out') (cs.set n c') qss' ∧
          qss'.flatten.Perm (ps' ++ rest) := by
  induction h generalizing n with
  | nil => simp at hc
  | @cons d ps cs qss hd hcs ih =>
    cases n with
    | zero =>
      obtain rfl := Option.some.inj hc
      exact ⟨ps, qss.flatten, hd, List.Perm.refl _, fun out' c' ps' hout hc' =>
        ⟨ps' :: qss, .cons hc' (hcs.imp fun _ _ h => h.mono hout), List.Perm.refl _⟩⟩
    | succ n =>
      obtain ⟨ps1, rest, hc1, hp, hput⟩ := ih hc
      refine ⟨ps1, ps ++ rest, hc1, (hp.append_left ps).trans (List.perm_append_comm_assoc ..),
        fun out' c' ps' hout hc' => ?_⟩
      obtain ⟨qss', hqss', hp'⟩ := hput out' c' ps' hout hc'
      exact ⟨ps :: qss', .cons (hd.mono hout) hqss',
        (hp'.append_left ps).trans (List.perm_append_comm_assoc ..)⟩

theorem mem_carried {ps tasks : List RequestParcel} {rs : List ResponseParcel} {n : Nat} :
    n ∈ carried ps tasks rs ↔ ((∃ p ∈ ps, p.id = n) ∨ (∃ p ∈ tasks, p.id = n) ∨
      ∃ r ∈ rs, r.id = n) ∧ n ≠ 0 := by
  simp [carried, or_and_right]

/-- What is carried does not depend on where it is. -/
theorem carried_perm {ps tasks ps' tasks' : List RequestParcel} {rs rs' : List ResponseParcel}
    {n : Nat}
    (h : (ps.map Parcel.id ++ (tasks.map Parcel.id ++ rs.map Parcel.id)).Perm
      (n :: (ps'.map Parcel.id ++ (tasks'.map Parcel.id ++ rs'.map Parcel.id)))) :
    (carried ps tasks rs).Perm ([n].filter (fun n => n ≠ 0) ++ carried ps' tasks' rs') := by
  refine (h.filter fun n => n ≠ 0).trans (List.Perm.of_eq ?_)
  rw [← List.singleton_append, List.filter_append]
  rfl

/-- The link of a connection that is in use, or of a new one. -/
theorem Now.connect {s : Link} {ps : List RequestParcel} (h : Now out s.thread s.conn ps)
    {ok : Bool} {c : Conn} (hc : s.connect ok = some c) : ∃ rs, Live out s.thread c ps rs := by
  unfold Link.connect at hc
  cases hconn : s.conn with
  | some d =>
    rw [hconn] at h hc
    obtain rfl := Option.some.inj hc
    exact h
  | none =>
    rw [hconn] at h hc
    obtain ⟨rfl, hnone⟩ := h
    rw [Option.ite_none_right_eq_some] at hc
    obtain rfl := Option.some.inj hc.2
    refine ⟨[], carries_init out, responses_init hnone, by simp, List.nodup_nil,
      fun n w hw => ?_, fun co p _ hp => ?_⟩
    · exact absurd ((hnone n).symm.trans hw) (by simp)
    · exact absurd hp (by simp [carried, Conn.init, Agent.init])

/-- The connection carries the same sessions, in other places. -/
theorem Live.move {c c' : Conn} {ps ps' : List RequestParcel} {rs rs' : List ResponseParcel}
    (h : Live out thread c ps rs) {out' : List Act} (hc : Carries out' c' ps')
    (hresponses : Responses thread c' rs') (hanswered : ∀ r ∈ rs', .answered r ∈ out')
    (hperm : (carried ps' c'.agent.tasks rs').Perm (carried ps c.agent.tasks rs))
    (hcalls : ∀ co p, .issued (some co) p ∈ out' → .issued (some co) p ∈ out) :
    Live out' thread c' ps' rs' where
  toCarries := hc
  responses := hresponses
  answered := hanswered
  nodup := hperm.symm.nodup h.nodup
  waiting n w hw := hperm.symm.subset (h.waiting n w hw)
  call co p hp hmem := h.call co p (hcalls co p hp) (hperm.subset hmem)

/-- More has been seen, but no call. -/
theorem Now.mono {conn : Option Conn} {ps : List RequestParcel} (h : Now out thread conn ps)
    {out' : List Act} (hout : out ⊆ out')
    (hcalls : ∀ co p, .issued (some co) p ∈ out' → .issued (some co) p ∈ out) :
    Now out' thread conn ps := by
  cases conn with
  | none => exact h
  | some c =>
    obtain ⟨rs, hlive⟩ := h
    exact ⟨rs, hlive.move (hlive.mono hout) hlive.responses
      (fun r hr => hout (hlive.answered r hr)) (List.Perm.refl _) hcalls⟩

/-- Acts that write no request leave the calls as they are. -/
theorem issued_of_quiet {a : List Act} (hquiet : ∀ x ∈ a, x.request = none) {co : Option Co}
    {p : RequestParcel} (hp : .issued co p ∈ out ++ a) : .issued co p ∈ out := by
  rcases List.mem_append.mp hp with hp | hp
  · exact hp
  · exact absurd (hquiet _ hp) (by simp [Act.request])

/-! ## What agents do -/

/-- **What an agent has done**: its connection `c`, with the requests `ps`, has become `c'`. -/
structure Done (out : List Act) (fresh : Nat → Prop) (thread : Table Nat Waiting) (c : Conn)
    (ps : List RequestParcel) (c' : Conn) (a : List Act) : Prop where
  quiet : ∀ x ∈ a, x.request = none
  told : Told (out ++ a) fresh thread
  carries : ∃ ps', Carries (out ++ a) c' ps' ∧ ps.Perm (a.filterMap Act.taken ++ ps') ∧
    ∀ rs, Live out thread c ps rs → ∃ rs', Live (out ++ a) thread c' ps' rs'

/-- A call that was under way is in the hands of the agent; a push is gone. -/
theorem Live.hand {c c' : Conn} {ps ps' : List RequestParcel} {rs : List ResponseParcel}
    (h : Live out thread c ps rs) (htold : Told out fresh thread) {co : Option Co}
    {p : RequestParcel} (hco : .issued co p ∈ out) (hp : ps.Perm (p :: ps'))
    (htasks : c'.agent.tasks = (c.agent.hand p).tasks) (hc : Carries (out ++ [.handed p]) c' ps')
    (hresponses : Responses thread c' rs) : Live (out ++ [.handed p]) thread c' ps' rs := by
  have hanswered : ∀ r ∈ rs, .answered r ∈ out ++ [.handed p] := fun r hr =>
    List.mem_append_left _ (h.answered r hr)
  have hcalls : ∀ co' q, .issued (some co') q ∈ out ++ [.handed p] →
      .issued (some co') q ∈ out := by simp
  unfold Agent.hand at htasks
  by_cases hpush : p.label.2 = true
  · rw [if_pos hpush] at htasks
    have hcarried : (carried ps c.agent.tasks rs).Perm
        ([p.id].filter (fun n => n ≠ 0) ++ carried ps' c'.agent.tasks rs) := by
      rw [htasks]
      exact carried_perm ((hp.map Parcel.id).append_right _)
    -- nobody waits for a push
    have hnot : ∀ co' q, .issued (some co') q ∈ out → q.id ≠ p.id := by
      intro co' q hq heq
      obtain ⟨-, -, hlabel, hne⟩ := htold.issued _ q hq
      obtain rfl := htold.unique _ q _ p hq hco heq (hne rfl)
      rw [hlabel] at hpush
      exact absurd hpush (by simp)
    refine ⟨hc, hresponses, hanswered, (hcarried.nodup h.nodup).of_append_right,
      fun n w hw => ?_, fun co' q hq hm =>
        h.call co' q (hcalls co' q hq) (hcarried.symm.subset (List.mem_append_right _ hm))⟩
    rcases List.mem_append.mp (hcarried.subset (h.waiting n w hw)) with hm | hm
    · obtain ⟨-, q, hq, hid⟩ := htold.waiting n w hw
      rw [List.mem_filter, List.mem_singleton] at hm
      exact absurd (hid.trans hm.1) (hnot _ q hq)
    · exact hm
  · rw [if_neg hpush] at htasks
    refine h.move hc hresponses hanswered ?_ hcalls
    rw [htasks]
    refine List.Perm.filter _ (List.Perm.trans ?_ ((hp.map Parcel.id).append_right _).symm)
    simp only [List.map_append, List.map_cons, List.map_nil, List.append_assoc,
      List.cons_append, List.nil_append]
    rw [← List.append_assoc, ← List.append_assoc (ps'.map Parcel.id)]
    exact List.perm_middle

/-- **A package, or an address, has come.** -/
theorem Carries.arrived {c c' : Conn} {ps : List RequestParcel} (h : Carries out c ps)
    (htold : Told out fresh thread) (hissued : ∀ p ∈ ps, ∃ co, .issued co p ∈ out) {a : List Act}
    (harrived : Arrived c ps c' a) (hrhigh : c'.rhigh = c.rhigh) (hrlow : c'.rlow = c.rlow) :
    Done out fresh thread c ps c' a := by
  cases harrived with
  | quiet htasks hway =>
    have hc : Carries (out ++ []) c' ps := by
      rw [List.append_nil]
      exact ⟨hway, htasks ▸ h.tasks⟩
    refine ⟨by simp, (List.append_nil out).symm ▸ htold, ps, hc, List.Perm.refl _,
      fun rs hlive => ⟨rs, hlive.move hc (hlive.responses.congr hrhigh hrlow) ?_ ?_ ?_⟩⟩
    · simpa using hlive.answered
    · rw [htasks]
    · simp
  | @handed p ps' hp htasks hway =>
    obtain ⟨co, hco⟩ := hissued p (hp.symm.subset (List.mem_cons_self ..))
    have hsub : out ⊆ out ++ [.handed p] := List.subset_append_left ..
    have hc : Carries (out ++ [.handed p]) c' ps' := by
      refine ⟨hway, fun q hq => ?_⟩
      rw [htasks, Agent.hand] at hq
      split at hq
      · exact (h.mono hsub).tasks q hq
      · rename_i hpush
        rcases List.mem_append.mp hq with hq | hq
        · exact (h.mono hsub).tasks q hq
        · rw [List.mem_singleton.mp hq]
          exact ⟨⟨.handed p, by simp, rfl⟩, by simpa using hpush⟩
    exact ⟨by simp [Act.request], htold.take (.inl rfl) hco, ps', hc, hp, fun rs hlive =>
      ⟨rs, hlive.hand htold hco hp htasks hc (hlive.responses.congr hrhigh hrlow)⟩⟩

/-- **The agent writes a response** for the request `p`, which it has had. -/
theorem Live.respond {c d : Conn} {ps ps' : List RequestParcel} {rs : List ResponseParcel}
    (h : Live out thread c ps rs) {out' : List Act} (hd : Carries out' d ps') {p : RequestParcel}
    (hperm : (ps.map Parcel.id ++ c.agent.tasks.map Parcel.id).Perm
      (p.id :: (ps'.map Parcel.id ++ d.agent.tasks.map Parcel.id)))
    (hrhigh : d.rhigh = c.rhigh) (hrlow : d.rlow = c.rlow) {ok : Bool} {msg : Bytes}
    (hv : ValidResponse (responseParcel p.id ok msg))
    (hanswered : .answered (responseParcel p.id ok msg) ∈ out') (hout : out ⊆ out')
    (hcalls : ∀ co q, .issued (some co) q ∈ out' → .issued (some co) q ∈ out) :
    ∃ rs', Live out' thread (d.respond p.id ok msg) ps' rs' := by
  have hall : (ps.map Parcel.id ++ (c.agent.tasks.map Parcel.id ++ rs.map Parcel.id)).Perm
      (p.id :: (ps'.map Parcel.id ++ (d.agent.tasks.map Parcel.id ++ rs.map Parcel.id))) := by
    rw [← List.append_assoc, ← List.append_assoc (ps'.map Parcel.id), ← List.cons_append]
    exact hperm.append_right _
  have hnew : ∀ r ∈ rs, p.id = r.id →
      responseCut.small (responseParcel p.id ok msg) = true ∧ responseCut.small r = true := by
    intro r hr heq
    by_cases h0 : p.id = 0
    · exact ⟨hv.push h0, (h.responses.valid r hr).push (heq ▸ h0)⟩
    · -- the session is in hand, so it is not that of a response
      have hnodup := (carried_perm hall).nodup h.nodup
      refine absurd ?_ (List.disjoint_of_nodup_append hnodup (a := p.id) ?_)
      · exact mem_carried.mpr ⟨.inr (.inr ⟨r, hr, heq.symm⟩), h0⟩
      · exact List.mem_filter.mpr ⟨List.mem_singleton_self _, by simpa using h0⟩
  obtain ⟨rhigh, rlow, heq, hresponses⟩ :=
    Responses.respond (c := d) (h.responses.congr hrhigh hrlow) hv hnew
  rw [heq]
  refine ⟨_, h.move ⟨hd.underway.congr rfl rfl rfl rfl, hd.tasks⟩ hresponses
    (List.forall_mem_cons.mpr ⟨hanswered, fun r hr => hout (h.answered r hr)⟩) ?_ hcalls⟩
  refine List.Perm.filter _ (List.Perm.trans ?_ hall.symm)
  rw [List.map_cons]
  refine (List.Perm.append_left _ List.perm_middle).trans ?_
  exact List.perm_middle

/-- The task `i` has ended. -/
def Conn.without (c : Conn) (i : Nat) : Conn :=
  { c with agent := { c.agent with tasks := c.agent.tasks.eraseIdx i } }

/-- **A service answers.** -/
theorem Carries.finish {c : Conn} {ps : List RequestParcel} (h : Carries out c ps)
    (htold : Told out fresh thread) {i : Nat} {p : RequestParcel}
    (hp : c.agent.tasks[i]? = some p) (ok : Bool) {msg : Bytes} (hmsg : msg.length < 2 ^ 31) :
    Done out fresh thread c ps ((c.without i).respond p.id ok msg)
      [.answered (responseParcel p.id ok msg)] := by
  have hsub : out ⊆ out ++ [.answered (responseParcel p.id ok msg)] :=
    List.subset_append_left ..
  obtain ⟨htaken, hcall⟩ := h.tasks p (List.mem_of_getElem? hp)
  have hv := htold.validResponse htaken ok hmsg fun h0 => by
    obtain ⟨co, hco⟩ := htold.taken p htaken
    obtain ⟨-, -, hlabel, hne⟩ := htold.issued co p hco
    refine absurd h0 (hne ?_)
    rw [hcall] at hlabel
    cases co with
    | none => exact absurd hlabel (by simp)
    | some co => rfl
  have hc : Carries (out ++ [.answered (responseParcel p.id ok msg)]) (c.without i) ps :=
    ⟨h.underway.congr rfl rfl rfl rfl, fun q hq =>
      (h.mono hsub).tasks q (List.mem_of_mem_eraseIdx hq)⟩
  obtain ⟨rhigh, rlow, heq⟩ := respond_eq (c.without i) p.id ok msg
  refine ⟨by simp [Act.request], htold.answer htaken rfl, ps, ?_, List.Perm.refl _,
    fun rs hlive => hlive.respond hc ?_ rfl rfl hv (by simp) hsub (by simp)⟩
  · rw [heq]
    exact ⟨hc.underway.congr rfl rfl rfl rfl, hc.tasks⟩
  · exact (((perm_eraseIdx hp).map Parcel.id).append_left _).trans List.perm_middle

/-- **The agent answers a request itself.** -/
theorem Carries.keep {c : Conn} {ps : List RequestParcel} (h : Carries out c ps)
    (htold : Told out fresh thread) (hissued : ∀ p ∈ ps, ∃ co, .issued co p ∈ out) {i : Nat}
    {p : RequestParcel} (hp : c.agent.queries[i]? = some p) (ok : Bool) {msg : Bytes}
    (hmsg : msg.length ≤ MULTI_PART) :
    Done out fresh thread c ps ((c.found i).respond p.id ok msg)
      [.kept p, .answered (responseParcel p.id ok msg)] := by
  have hsub : out ⊆ out ++ [.kept p, .answered (responseParcel p.id ok msg)] :=
    List.subset_append_left ..
  obtain ⟨ps', hps, hway⟩ := h.underway.lookup hp
  obtain ⟨co, hco⟩ := hissued p (hps.symm.subset (List.mem_cons_self ..))
  have htold' := htold.take (.inr rfl) hco
  have htaken : Taken (out ++ [.kept p]) p := ⟨.kept p, by simp, rfl⟩
  have hlt : msg.length < 2 ^ 31 := Nat.lt_of_le_of_lt hmsg (by decide)
  have hv := htold'.validResponse htaken ok hlt fun _ _ => hmsg
  have hc : Carries (out ++ [.kept p, .answered (responseParcel p.id ok msg)]) (c.found i) ps' :=
    ⟨hway, fun q hq => (h.mono hsub).tasks q hq⟩
  obtain ⟨rhigh, rlow, heq⟩ := respond_eq (c.found i) p.id ok msg
  refine ⟨by simp [Act.request], ?_, ps', ?_, hps, fun rs hlive =>
    hlive.respond hc ((hps.map Parcel.id).append_right _) rfl rfl hv (by simp) hsub (by simp)⟩
  · have hanswer := htold'.answer (r := responseParcel p.id ok msg) htaken rfl
    rwa [List.append_assoc] at hanswer
  · rw [heq]
    exact ⟨hc.underway.congr rfl rfl rfl rfl, hc.tasks⟩

/-- **An address has been looked up.** -/
theorem Carries.lookup {c : Conn} {ps : List RequestParcel} (h : Carries out c ps)
    (htold : Told out fresh thread) (hissued : ∀ p ∈ ps, ∃ co, .issued co p ∈ out) {i : Nat}
    {p : RequestParcel} (hp : c.agent.queries[i]? = some p) {found : Option Bytes}
    (hfound : ∀ addr, found = some addr → addr.length ≤ MULTI_PART) :
    Done out fresh thread c ps ((c.found i).lookup p found).1 ((c.found i).lookup p found).2 := by
  unfold Conn.lookup
  cases haddr : p.label.1 with
  | handle n =>
    cases found with
    | some addr => exact h.keep htold hissued hp true (hfound addr rfl)
    | none =>
      exact h.keep htold hissued hp false
        (show (bytes "name not found").length ≤ MULTI_PART by decide)
  | name s =>
    cases found with
    | some addr =>
      obtain ⟨ps', hps, hway⟩ := h.underway.lookup hp
      refine h.arrived htold hissued (.handed hps ?_ (hway.congr rfl rfl ?_ ?_)) rfl rfl
      · dsimp only
        unfold Agent.hand Conn.found
        split <;> rfl
      · rw [hand_eq]
      · rw [hand_eq]
    | none =>
      exact h.keep htold hissued hp false
        (show (bytes "Invalid name").length ≤ MULTI_PART by decide)

/-! ## The invariant -/

/-- The sessions of those that wait in `block_connect`. -/
def sessions (es : List Pending) : List Nat :=
  (es.map fun e => e.parcel.id).filter fun n => n ≠ 0

/-- No request has been written under the session. -/
def Link.Fresh (s : Link) (n : Nat) : Prop := s.session ≤ n ∨ n ∈ sessions s.pending

/-- **The invariant.** -/
structure Inv (out : List Act) (s : Link) : Prop where
  told : Told out s.Fresh s.thread
  positive : 0 < s.session
  pending : ∀ e ∈ s.pending, e.session < 2 ^ 31 ∧ e.parcel.id < s.session
  nodup : (sessions s.pending).Nodup
  wires : ∃ ps qss, Now out s.thread s.conn ps ∧ List.Forall₂ (Carries out) s.old qss ∧
    (out.filterMap Act.request).Perm (out.filterMap Act.taken ++ (ps ++ qss.flatten))

theorem Inv.init : Inv [] calls.init :=
  ⟨told_init, Nat.one_pos, by simp [calls], List.nodup_nil,
    [], [], ⟨rfl, fun _ => Table.get_empty _⟩, .nil, List.Perm.refl _⟩

/-- A request that is under way has been issued. -/
theorem issued_of_perm {l : List RequestParcel}
    (hp : (out.filterMap Act.request).Perm (out.filterMap Act.taken ++ l)) {p : RequestParcel}
    (hmem : p ∈ l) : ∃ co, .issued co p ∈ out := by
  have hin := hp.symm.subset (List.mem_append_right _ hmem)
  obtain ⟨a, ha, heq⟩ := List.mem_filterMap.mp hin
  cases a with
  | issued co q =>
    obtain rfl := Option.some.inj heq
    exact ⟨co, ha⟩
  | handed | kept | answered | returned | raised | refused | unknown =>
    exact absurd heq (by simp [Act.request])

/-- Acts that write no request; those that are taken were under way. -/
theorem perm_taken {l l' : List RequestParcel} {a : List Act}
    (h : (out.filterMap Act.request).Perm (out.filterMap Act.taken ++ l))
    (hquiet : ∀ x ∈ a, x.request = none) (hl : l.Perm (a.filterMap Act.taken ++ l')) :
    ((out ++ a).filterMap Act.request).Perm ((out ++ a).filterMap Act.taken ++ l') := by
  have hrequest : a.filterMap Act.request = [] := List.filterMap_eq_nil_iff.mpr hquiet
  rw [List.filterMap_append, List.filterMap_append, hrequest, List.append_nil, List.append_assoc]
  exact h.trans (hl.append_left _)

/-- **What an agent does.** -/
theorem Inv.agent {s : Link} (h : Inv out s) {n : Option Nat} {c c' : Conn}
    (hc : s.get n = some c) {a : List Act}
    (hdone : ∀ ps, Carries out c ps → (∀ p ∈ ps, ∃ co, .issued co p ∈ out) →
      Done out s.Fresh s.thread c ps c' a) : Inv (out ++ a) (s.put c' n) := by
  obtain ⟨htold, hpos, hpending, hnodup, ps, qss, hnow, hold, hperm⟩ := h
  have hsub : out ⊆ out ++ a := List.subset_append_left ..
  cases n with
  | none =>
    rw [show s.conn = some c from hc] at hnow
    obtain ⟨rs, hlive⟩ := hnow
    obtain ⟨hquiet, htold', ps', -, hps, hlive'⟩ := hdone ps hlive.toCarries fun p hp =>
      issued_of_perm hperm (List.mem_append_left _ hp)
    refine ⟨htold', hpos, hpending, hnodup, ps', qss, hlive' rs hlive,
      hold.imp fun _ _ hc => hc.mono hsub, perm_taken hperm hquiet ?_⟩
    rw [← List.append_assoc]
    exact hps.append_right _
  | some n =>
    obtain ⟨ps1, rest, hcarries, hqss, hput⟩ := replace_carries hold hc
    obtain ⟨hquiet, htold', ps', hcarries', hps, -⟩ := hdone ps1 hcarries fun p hp =>
      issued_of_perm hperm (List.mem_append_right _ (hqss.symm.subset (List.mem_append_left _ hp)))
    obtain ⟨qss', hold', hp'⟩ := hput _ c' ps' hsub hcarries'
    refine ⟨htold', hpos, hpending, hnodup, ps, qss', hnow.mono hsub fun _ _ =>
      issued_of_quiet hquiet, hold', perm_taken hperm hquiet ?_⟩
    calc (ps ++ qss.flatten).Perm (ps ++ (ps1 ++ rest)) := hqss.append_left ps
      List.Perm _ (ps ++ ((a.filterMap Act.taken ++ ps') ++ rest)) :=
        (hps.append_right rest).append_left ps
      List.Perm _ (ps ++ (a.filterMap Act.taken ++ qss'.flatten)) := by
        rw [List.append_assoc]
        exact (hp'.symm.append_left _).append_left ps
      List.Perm _ (a.filterMap Act.taken ++ (ps ++ qss'.flatten)) :=
        List.perm_append_comm_assoc ..

/-- **A package of a response arrives.** -/
theorem Inv.reply {s : Link} (h : Inv out s) {low : Bool} {c : Conn} {package : Bytes}
    {rhigh rlow : List Bytes} (hc : s.conn = some c)
    (hnext : next low c.rhigh c.rlow = some (package, rhigh, rlow)) :
    ∃ r, ((Skynet.packages.read package).bind fun x => unpackresponse x.1) = some r ∧
      ∀ t acts, Link.dispatchReply { s with
        conn := some { c with rhigh := rhigh, rlow := rlow } } r = (t, acts) →
        t.session = s.session ∧ Inv (out ++ acts) t := by
  obtain ⟨htold, hpos, hpending, hnodups, ps, qss, hnow, hold, hperm⟩ := h
  rw [hc] at hnow
  obtain ⟨rs, hlive⟩ := hnow
  obtain ⟨r, hr, hreplied⟩ := hlive.responses.reply hnext
  refine ⟨r, hr, fun t acts hdispatch => ?_⟩
  unfold Link.dispatchReply at hdispatch
  have hcarries : Carries out { c with rhigh := rhigh, rlow := rlow } ps :=
    ⟨hlive.underway.congr rfl rfl rfl rfl, hlive.tasks⟩
  have hused : ∀ q ∈ rs, ¬s.Fresh q.id := by
    intro q hq
    obtain ⟨co, p, hp, -, hid⟩ := htold.origin (hlive.answered q hq)
    exact hid ▸ (htold.issued co p hp).2.1
  -- nobody calls under the session of a response for which nobody waits
  have hstray : ∀ q ∈ rs, s.thread.get q.id = none →
      ∀ co p, .issued (some co) p ∈ out → p.id ≠ q.id := by
    intro q hq hnone co p hp heq
    refine hlive.call co p hp (mem_carried.mpr ⟨.inr (.inr ⟨q, hq, heq.symm⟩), ?_⟩)
      (heq ▸ hnone)
    exact (htold.issued _ p hp).2.2.2 rfl
  cases hreplied with
  | @more p hmem hsession hpadding hw hnone =>
    cases hget : s.thread.get r.session with
    | none =>
      rw [hget] at hdispatch
      obtain ⟨rfl, rfl⟩ := Prod.mk.inj hdispatch
      have hsub : out ⊆ out ++ [.unknown r.session] := List.subset_append_left ..
      refine ⟨rfl, htold.stray (hsession ▸ hused p hmem) ?_, hpos, hpending, hnodups, ps, qss,
        ⟨rs, hlive.move (hcarries.mono hsub) (hnone hget)
          (fun q hq => hsub (hlive.answered q hq)) (List.Perm.refl _) (by simp)⟩,
        hold.imp fun _ _ hc => hc.mono hsub,
        perm_taken hperm (by simp [Act.request]) (List.Perm.refl _)⟩
      rw [hsession] at hget ⊢
      exact hstray p hmem hget
    | some w =>
      simp only [hget, hpadding, if_true] at hdispatch
      obtain ⟨rfl, rfl⟩ := Prod.mk.inj hdispatch
      rw [List.append_nil]
      refine ⟨rfl, htold.more hget _, hpos, hpending, hnodups, ps, qss, ⟨rs, hcarries, hw w hget,
        hlive.answered, hlive.nodup, fun m v hv => ?_, fun co q hq hm => ?_⟩, hold, hperm⟩
      · dsimp only at hv
        rw [Table.get_set] at hv
        split at hv
        · rename_i heq
          exact heq ▸ hlive.waiting _ w hget
        · exact hlive.waiting m v hv
      · dsimp only
        rw [Table.get_set]
        split
        · exact Option.some_ne_none _
        · exact hlive.call co q hq hm
  | @completed p rs' hp hsession hpadding hw hresponses =>
    have hmem : p ∈ rs := hp.symm.subset (List.mem_cons_self ..)
    have hcarried : (carried ps c.agent.tasks rs).Perm
        ([p.id].filter (fun n => n ≠ 0) ++ carried ps c.agent.tasks rs') := by
      refine carried_perm ?_
      refine ((hp.map Parcel.id).append_left _ |>.append_left _).trans ?_
      rw [List.map_cons, ← List.append_assoc, ← List.append_assoc]
      exact List.perm_middle
    have hnodup := hcarried.nodup hlive.nodup
    have hanswered : ∀ q ∈ rs', .answered q ∈ out := fun q hq =>
      hlive.answered q (hp.symm.subset (List.mem_cons_of_mem _ hq))
    have hlive' : Live out (s.thread.del p.id) { c with rhigh := rhigh, rlow := rlow } ps rs' := by
      refine ⟨hcarries, hresponses, hanswered, hnodup.of_append_right,
        fun m v hv => ?_, fun co q hq hm => ?_⟩
      · obtain ⟨hne, hv⟩ := Table.get_of_get_del hv
        rcases List.mem_append.mp (hcarried.subset (hlive.waiting m v hv)) with hm | hm
        · rw [List.mem_filter, List.mem_singleton] at hm
          exact absurd hm.1 hne
        · exact hm
      · have hne : q.id ≠ p.id := fun heq => List.disjoint_of_nodup_append hnodup
          (List.mem_filter.mpr ⟨List.mem_singleton.mpr heq, by
            simpa using (mem_carried.mp hm).2⟩) hm
        rw [Table.get_del_ne hne]
        exact hlive.call co q hq (hcarried.symm.subset (List.mem_append_right _ hm))
    have hnow' : Now out (s.thread.del p.id) (some { c with rhigh := rhigh, rlow := rlow }) ps :=
      ⟨rs', hlive'⟩
    rw [hsession] at hdispatch
    cases hget : s.thread.get p.id with
    | none =>
      rw [hget] at hdispatch
      obtain ⟨rfl, rfl⟩ := Prod.mk.inj hdispatch
      rw [Table.del_of_get_none hget] at hnow'
      have hsub : out ⊆ out ++ [.unknown p.id] := List.subset_append_left ..
      exact ⟨rfl, htold.stray (hused p hmem) (hstray p hmem hget), hpos, hpending, hnodups, ps,
        qss, hnow'.mono hsub (by simp), hold.imp fun _ _ hc => hc.mono hsub,
        perm_taken hperm (by simp [Act.request]) (List.Perm.refl _)⟩
    | some w =>
      simp only [hget, hpadding, Bool.false_eq_true, if_false] at hdispatch
      obtain ⟨rfl, rfl⟩ := Prod.mk.inj hdispatch
      obtain ⟨hnot, p0, hp0, hid0⟩ := htold.waiting p.id w hget
      obtain ⟨co1, p1, hp1, htaken, hid1⟩ := htold.origin (hlive.answered p hmem)
      obtain rfl := htold.unique _ p0 _ p1 hp0 hp1 (hid0.trans hid1.symm)
        ((htold.issued _ p0 hp0).2.2.2 rfl)
      have hsub : out ⊆ out ++ [.returned w.co p.id (resultOf w r)] :=
        List.subset_append_left ..
      refine ⟨rfl, htold.finish ?_ ?_ ?_ ?_ ?_, hpos, hpending, hnodups, ps, qss,
        hnow'.mono hsub (by simp), hold.imp fun _ _ hc => hc.mono hsub,
        perm_taken hperm (by simp [Act.request]) (List.Perm.refl _)⟩
      · intro a ha
        rw [List.mem_singleton.mp ha]
        exact ⟨p.id, rfl, hused p hmem⟩
      · exact List.nodup_singleton _
      · intro n hn
        rwa [List.mem_singleton.mp (show n ∈ [p.id] from hn)]
      · intro co n result ha
        obtain ⟨rfl, rfl, rfl⟩ := Act.returned.inj (List.mem_singleton.mp ha)
        exact ⟨p0, p, hp0, htaken, hlive.answered p hmem, hid0, rfl, hw w hget⟩
      · intro n v hv
        obtain ⟨hne, hv⟩ := Table.get_of_get_del hv
        exact ⟨hv, fun hn => hne (List.mem_singleton.mp (show n ∈ [p.id] from hn))⟩

/-- **The connection breaks.** -/
theorem Inv.close {s : Link} (h : Inv out s) : Inv (out ++ s.close.2) s.close.1 := by
  obtain ⟨htold, hpos, hpending, hnodup, ps, qss, hnow, hold, hperm⟩ := h
  have hsub : out ⊆ out ++ s.close.2 := List.subset_append_left ..
  have hquiet : ∀ a ∈ s.close.2, a.request = none := by
    intro a ha
    obtain ⟨x, -, rfl⟩ := List.mem_map.mp ha
    rfl
  have htaken : s.close.2.filterMap Act.taken = [] := by
    refine List.filterMap_eq_nil_iff.mpr fun a ha => ?_
    obtain ⟨x, -, rfl⟩ := List.mem_map.mp ha
    rfl
  have hended : s.close.2.filterMap Act.ended = s.thread.entries.map Prod.fst := by
    rw [Link.close, List.filterMap_map]
    exact congrFun (List.filterMap_eq_map (f := Prod.fst)) s.thread.entries
  have hentry : ∀ n ∈ s.close.2.filterMap Act.ended, ∃ w, s.thread.get n = some w := by
    intro n hn
    rw [hended] at hn
    obtain ⟨⟨m, w⟩, hx, rfl⟩ := List.mem_map.mp hn
    exact ⟨w, Table.mem_entries.mp hx⟩
  have htold' : Told (out ++ s.close.2) s.Fresh Table.empty := by
    refine htold.finish (fun a ha => ?_) (hended ▸ s.thread.entries_nodup) (fun n hn => ?_)
      (fun co n result ha => ?_) fun n w hw => ?_
    · obtain ⟨⟨n, w⟩, hx, rfl⟩ := List.mem_map.mp ha
      obtain ⟨-, p, hp, rfl⟩ := htold.waiting n w (Table.mem_entries.mp hx)
      exact ⟨p.id, rfl, (htold.issued _ p hp).2.1⟩
    · obtain ⟨w, hw⟩ := hentry n hn
      exact (htold.waiting n w hw).1
    · obtain ⟨x, -, hx⟩ := List.mem_map.mp ha
      exact absurd hx (by simp)
    · exact absurd hw (by simp)
  have hperm' : ((out ++ s.close.2).filterMap Act.request).Perm
      ((out ++ s.close.2).filterMap Act.taken ++ (ps ++ qss.flatten)) :=
    perm_taken hperm hquiet (by rw [htaken]; rfl)
  refine ⟨htold', hpos, hpending, hnodup, ?_⟩
  cases hconn : s.conn with
  | none =>
    rw [hconn] at hnow
    obtain ⟨rfl, -⟩ := hnow
    refine ⟨[], qss, ⟨rfl, fun _ => Table.get_empty _⟩, ?_, hperm'⟩
    rw [show s.close.1.old = s.old by simp [Link.close, hconn]]
    exact hold.imp fun _ _ hc => hc.mono hsub
  | some c =>
    rw [hconn] at hnow
    obtain ⟨rs, hlive⟩ := hnow
    refine ⟨[], ps :: qss, ⟨rfl, fun _ => Table.get_empty _⟩, ?_, hperm'⟩
    rw [show s.close.1.old = c :: s.old by simp [Link.close, hconn]]
    exact .cons (hlive.mono hsub) (hold.imp fun _ _ hc => hc.mono hsub)

/-- **An agent exits.** -/
theorem Inv.exit {s : Link} (h : Inv out s) {n : Option Nat} {c : Conn} (hc : s.get n = some c) :
    Inv (out ++ []) (s.put { c with exited := true } n) := by
  refine h.agent hc fun ps hcarries hissued => ?_
  exact hcarries.arrived h.told hissued
    (.quiet rfl (hcarries.underway.congr rfl rfl rfl rfl)) rfl rfl

/-! ## Requests -/

theorem Pending.valid (e : Pending) (hlt : e.session < 2 ^ 31) :
    ValidRequest e.parcel ∧ e.session ≠ 0 := by
  obtain ⟨hvalid, hne⟩ := valid_of_packrequest e.uint32 e.packed
  exact ⟨validRequest hvalid hne hlt e.length, hne⟩

/-- The number of a call is its session, and so is that of a push that is cut. -/
theorem Pending.parcel_id (e : Pending) :
    e.parcel.id = e.session ∨ e.co = none ∧ e.parcel.id = 0 := by
  unfold Pending.parcel requestParcel
  cases e.co with
  | some co => exact .inl (by simp)
  | none =>
    by_cases hsmall : e.msg.length < MULTI_PART
    · exact .inr (by simp [hsmall])
    · exact .inl (by simp [hsmall])

theorem Pending.id_of_call (e : Pending) (h : e.co.isSome) : e.parcel.id = e.session :=
  e.parcel_id.resolve_right fun hr => by simp [hr.1] at h

/-- **A request, or a push, is packed.** -/
theorem Inv.request {s : Link} (h : Inv out s) {o : Option Co} {addr : Addr} {msg : Bytes}
    (hargs : Addr.uint32 addr ∧ msg.length < 2 ^ 31) (hlt : s.session < 2 ^ 31 - 1) :
    Inv (out ++ (s.request o addr msg hargs).2) (s.request o addr msg hargs).1 ∧
      (s.request o addr msg hargs).1.session ≤ s.session + 1 := by
  obtain ⟨htold, hpos, hpending, hnodup, ps, qss, hnow, hold, hperm⟩ := h
  unfold Link.request
  split
  · rename_i hpack
    have hsub : out ⊆ out ++ [.refused] := List.subset_append_left ..
    exact ⟨⟨htold.quiet rfl rfl (by simp [Act.taken]) (by simp) (by simp), hpos, hpending, hnodup,
      ps, qss, hnow.mono hsub (by simp), hold.imp fun _ _ hc => hc.mono hsub,
      perm_taken hperm (by simp [Act.request]) (List.Perm.refl _)⟩, Nat.le_succ _⟩
  · rename_i request new padding hpack
    obtain ⟨hvalid, hne⟩ := valid_of_packrequest hargs.1 hpack
    have hpack' := Eq.trans (packrequest_eq hvalid hne).symm hpack
    obtain ⟨-, hrest⟩ := Prod.mk.inj (Option.some.inj hpack')
    obtain ⟨hnew, hpadding⟩ := Prod.mk.inj hrest
    have hnew : new = s.session + 1 := by
      rw [← hnew, newSession, if_neg (by omega)]
    generalize he : (⟨o, addr, s.session, msg, request, new, padding, hargs.1, hargs.2, hpack⟩ :
      Pending) = e
    -- the session counts on where it is used
    generalize hsession : (if o.isSome ∨ padding.isSome then new else s.session) = session'
    have hle : s.session ≤ session' := by
      rw [← hsession]
      split <;> omega
    have hle' : session' ≤ s.session + 1 := by
      rw [← hsession]
      split <;> omega
    have heses : e.session = s.session := by rw [← he]
    have hid : e.parcel.id < session' := by
      rw [← hsession, ← hpadding, ← he, Pending.parcel, requestParcel]
      cases o with
      | some co => simp [hnew]
      | none =>
        by_cases hsmall : msg.length < MULTI_PART
        · simpa [hsmall] using hpos
        · simp [hsmall, hnew]
    have hsessions : sessions (s.pending ++ [e]) =
        sessions s.pending ++ [e.parcel.id].filter (fun n => n ≠ 0) := by
      rw [sessions, List.map_append, List.filter_append]
      rfl
    have hold' : ∀ n ∈ [e.parcel.id].filter (fun n => n ≠ 0), n = s.session := by
      intro n hn
      obtain ⟨hn, h0⟩ := List.mem_filter.mp hn
      obtain rfl := List.mem_singleton.mp hn
      exact heses ▸ e.parcel_id.resolve_right fun hr => absurd hr.2 (of_decide_eq_true h0)
    rw [List.append_nil]
    refine ⟨⟨htold.mono fun n hn => ?_, Nat.lt_of_lt_of_le hpos hle, fun d hd => ?_, ?_, ps, qss,
      hnow, hold, hperm⟩, hle'⟩
    · rcases hn with hn | hn
      · exact .inl (Nat.le_trans hle hn)
      · rw [hsessions] at hn
        rcases List.mem_append.mp hn with hn | hn
        · exact .inr hn
        · exact .inl (Nat.le_of_eq (hold' n hn).symm)
    · rcases List.mem_append.mp hd with hd | hd
      · exact ⟨(hpending d hd).1, Nat.lt_of_lt_of_le (hpending d hd).2 hle⟩
      · rw [List.mem_singleton.mp hd]
        exact ⟨by omega, hid⟩
    · rw [hsessions]
      refine hnodup.append ((List.nodup_singleton _).filter _) fun n hn hn' => ?_
      obtain ⟨d, hd, rfl⟩ := List.mem_map.mp (List.mem_of_mem_filter hn)
      exact absurd (hold' _ hn') (Nat.ne_of_lt (hpending d hd).2)

/-- What a connection carries is not fresh. -/
theorem Live.used {c : Conn} {ps : List RequestParcel} {rs : List ResponseParcel}
    (h : Live out thread c ps rs) (htold : Told out fresh thread)
    (hps : ∀ p ∈ ps, ∃ co, .issued co p ∈ out) {n : Nat} (hn : n ∈ carried ps c.agent.tasks rs) :
    ¬fresh n := by
  rcases (mem_carried.mp hn).1 with ⟨p, hp, rfl⟩ | ⟨p, hp, rfl⟩ | ⟨r, hr, rfl⟩
  · obtain ⟨co, hco⟩ := hps p hp
    exact (htold.issued co p hco).2.1
  · obtain ⟨co, hco⟩ := htold.taken p (h.tasks p hp).1
    exact (htold.issued co p hco).2.1
  · obtain ⟨co, p, hco, -, hid⟩ := htold.origin (h.answered r hr)
    exact hid ▸ (htold.issued co p hco).2.1

/-- **A request, or a push, is written to the connection.** -/
theorem Live.write {c : Conn} {ps : List RequestParcel} {rs : List ResponseParcel}
    (h : Live out thread c ps rs) (htold : Told out fresh thread)
    (hps : ∀ p ∈ ps, ∃ co, .issued co p ∈ out) (e : Pending) (hlt : e.session < 2 ^ 31)
    (hid : fresh e.parcel.id ∨ e.co = none ∧ e.parcel.id = 0) {fresh' : Nat → Prop}
    (hused : ¬fresh' e.parcel.id) (hle : ∀ n, fresh' n → fresh n) :
    Told (out ++ [.issued e.co e.parcel]) fresh' (pushResponse thread e.session e.co) ∧
      Live (out ++ [.issued e.co e.parcel]) (pushResponse thread e.session e.co)
        (c.write e.request e.padding) (e.parcel :: ps) rs := by
  obtain ⟨hv, hne⟩ := e.valid hlt
  have hcall : e.co.isSome → e.parcel.id ≠ 0 := fun hco => e.id_of_call hco ▸ hne
  have hold : ∀ {n}, n ∈ carried ps c.agent.tasks rs → ¬fresh n := h.used htold hps
  -- a push that is not cut shares the session 0 with others like it
  have hnew : ∀ q ∈ ps, e.parcel.id = q.id →
      requestCut.small e.parcel = true ∧ requestCut.small q = true := by
    intro q hq heq
    obtain ⟨co, hco⟩ := hps q hq
    by_cases h0 : q.id = 0
    · refine ⟨?_, ?_⟩
      · by_contra hlarge
        exact hv.large (Bool.eq_false_iff.mpr hlarge) (heq.trans h0)
      · by_contra hlarge
        exact (htold.issued co q hco).1.large (Bool.eq_false_iff.mpr hlarge) h0
    · exact absurd (hid.resolve_right fun hr => h0 (heq ▸ hr.2))
        (heq ▸ (htold.issued co q hco).2.1)
  obtain ⟨high, low, hwrite, hway⟩ := h.underway.write e.packed hv hne hnew
  rw [hwrite]
  change Underway _ (e.parcel :: ps) at hway
  have htold' := htold.issue e.co hv rfl hid hcall hused hle
  have hsub : out ⊆ out ++ [.issued e.co e.parcel] := List.subset_append_left ..
  have hcarried : (carried (e.parcel :: ps) c.agent.tasks rs).Perm
      ([e.parcel.id].filter (fun n => n ≠ 0) ++ carried ps c.agent.tasks rs) :=
    carried_perm (List.Perm.refl _)
  have hfresh : ∀ n ∈ [e.parcel.id].filter (fun n => n ≠ 0), fresh n ∧ n = e.parcel.id := by
    intro n hn
    obtain ⟨hn, h0⟩ := List.mem_filter.mp hn
    obtain rfl := List.mem_singleton.mp hn
    exact ⟨hid.resolve_right fun hr => absurd hr.2 (of_decide_eq_true h0), rfl⟩
  have hnodup : (carried (e.parcel :: ps) c.agent.tasks rs).Nodup := by
    refine hcarried.symm.nodup (((List.nodup_singleton _).filter _).append h.nodup ?_)
    exact fun n hn hn' => hold hn' (hfresh n hn).1
  have hanswered : ∀ r ∈ rs, .answered r ∈ out ++ [.issued e.co e.parcel] := fun r hr =>
    hsub (h.answered r hr)
  have hcarries : Carries (out ++ [.issued e.co e.parcel]) { c with high := high, low := low }
      (e.parcel :: ps) := ⟨hway, (h.mono hsub).tasks⟩
  have hresponses : Responses thread { c with high := high, low := low } rs :=
    h.responses.congr rfl rfl
  have hissued : ∀ co q, .issued (some co) q ∈ out ++ [.issued e.co e.parcel] →
      .issued (some co) q ∈ out ∨ e.co = some co ∧ q = e.parcel := by
    intro co q hq
    rcases List.mem_append.mp hq with hq | hq
    · exact .inl hq
    · obtain ⟨hco, hq⟩ := Act.issued.inj (List.mem_singleton.mp hq)
      exact .inr ⟨hco.symm, hq⟩
  cases hco : e.co with
  | none =>
    rw [hco] at htold' hanswered hcarries hissued
    refine ⟨htold', hcarries, hresponses, hanswered, hnodup,
      fun n w hw => hcarried.symm.subset (List.mem_append_right _ (h.waiting n w hw)),
      fun co q hq hm => ?_⟩
    have hq := (hissued co q hq).resolve_right fun hr => by simp at hr
    rcases List.mem_append.mp (hcarried.subset hm) with hm | hm
    · exact absurd (hfresh _ hm).1 (htold.issued _ q hq).2.1
    · exact h.call co q hq hm
  | some co =>
    have hses : e.parcel.id = e.session := e.id_of_call (by simp [hco])
    have hpid : fresh e.parcel.id := hid.resolve_right fun hr => by simp [hco] at hr
    rw [hco] at htold' hanswered hcarries hissued hcall
    rw [← hses]
    have hmem : e.parcel.id ∈ carried (e.parcel :: ps) c.agent.tasks rs :=
      mem_carried.mpr ⟨.inl ⟨e.parcel, List.mem_cons_self .., rfl⟩, hcall rfl⟩
    refine ⟨?_, hcarries, hresponses.wait (fun r hr heq => ?_) co, hanswered, hnodup,
      fun n w hw => ?_, fun co' q hq hm => ?_⟩
    · have hnot : e.parcel.id ∉ (out ++ [Act.issued (some co) e.parcel]).filterMap Act.ended := by
        intro hn
        exact htold.used _ (by simpa [Act.ended] using hn) hpid
      exact htold'.wait (List.mem_append_right _ (List.mem_singleton_self _)) hnot
    · exact hold (mem_carried.mpr ⟨.inr (.inr ⟨r, hr, rfl⟩), heq ▸ hcall rfl⟩) (heq ▸ hpid)
    · rw [pushResponse, Table.get_set] at hw
      split at hw
      · rename_i heq
        exact heq ▸ hmem
      · exact hcarried.symm.subset (List.mem_append_right _ (h.waiting n w hw))
    · rw [pushResponse, Table.get_set]
      split
      · exact Option.some_ne_none _
      · rename_i hq0
        have hq := (hissued co' q hq).resolve_right fun hr => hq0 (hr.2 ▸ rfl)
        rcases List.mem_append.mp (hcarried.subset hm) with hm | hm
        · exact absurd (hfresh _ hm).2 hq0
        · exact h.call co' q hq hm

/-- A request, or a push, is written. -/
theorem perm_issue {l : List RequestParcel} {co : Option Co} {p : RequestParcel}
    (h : (out.filterMap Act.request).Perm (out.filterMap Act.taken ++ l)) :
    ((out ++ [Act.issued co p]).filterMap Act.request).Perm
      ((out ++ [Act.issued co p]).filterMap Act.taken ++ (p :: l)) := by
  have hrequest : (out ++ [Act.issued co p]).filterMap Act.request =
      out.filterMap Act.request ++ [p] := by
    simp [Act.request]
  have htaken : (out ++ [Act.issued co p]).filterMap Act.taken = out.filterMap Act.taken := by
    simp [Act.taken]
  rw [hrequest, htaken]
  exact (List.perm_append_singleton p _).trans ((h.cons p).trans List.perm_middle.symm)

/-- **`block_connect` has come back.** -/
theorem Inv.written {s : Link} (h : Inv out s) {i : Nat} {e : Pending}
    (he : s.pending[i]? = some e) (ok : Bool) :
    let s' := { s with pending := s.pending.eraseIdx i }
    Inv (out ++ (Link.written s' e ok).2) (Link.written s' e ok).1 ∧
      (Link.written s' e ok).1.session = s.session := by
  obtain ⟨htold, hpos, hpending, hnodup, ps, qss, hnow, hold, hperm⟩ := h
  intro s'
  obtain ⟨hlt, hid⟩ := hpending e (List.mem_of_getElem? he)
  have hpending' : ∀ d ∈ s'.pending, d.session < 2 ^ 31 ∧ d.parcel.id < s'.session :=
    fun d hd => hpending d (List.mem_of_mem_eraseIdx hd)
  have hsessions : (sessions s.pending).Perm
      ([e.parcel.id].filter (fun n => n ≠ 0) ++ sessions s'.pending) := by
    obtain ⟨hi, rfl⟩ := List.getElem?_eq_some_iff.mp he
    refine (((List.getElem_cons_eraseIdx_perm hi).symm.map _).filter _).trans ?_
    rw [List.map_cons, ← List.singleton_append, List.filter_append]
    exact List.Perm.refl _
  have hnodups := hsessions.nodup hnodup
  have hnodup' : (sessions s'.pending).Nodup := hnodups.of_append_right
  have hle : ∀ n, s'.Fresh n → s.Fresh n := by
    rintro n (hn | hn)
    · exact .inl hn
    · exact .inr (hsessions.symm.subset (List.mem_append_right _ hn))
  have hused : ¬s'.Fresh e.parcel.id := by
    rintro (hn | hn)
    · exact absurd hid (Nat.not_lt.mpr hn)
    · refine List.disjoint_of_nodup_append hnodups (List.mem_filter.mpr ⟨?_, ?_⟩) hn
      · exact List.mem_singleton_self _
      · exact (List.mem_filter.mp hn).2
  have hfresh : s.Fresh e.parcel.id ∨ e.co = none ∧ e.parcel.id = 0 := by
    by_cases h0 : e.parcel.id = 0
    · refine .inr ⟨?_, h0⟩
      rcases e.parcel_id with hses | hr
      · exact absurd (hses.symm.trans h0) (e.valid hlt).2
      · exact hr.1
    · exact .inl (.inr (hsessions.symm.subset (List.mem_append_left _
        (List.mem_filter.mpr ⟨List.mem_singleton_self _, by simpa using h0⟩))))
  unfold Link.written
  cases hconnect : s'.connect ok with
  | none =>
    -- the caller gets the error at once; a push is lost in silence
    have hmono := htold.mono hle
    cases hco : e.co with
    | none =>
      rw [Option.toList_none, List.map_nil, List.append_nil]
      exact ⟨⟨hmono, hpos, hpending', hnodup', ps, qss, hnow, hold, hperm⟩, rfl⟩
    | some co =>
      have hsub : out ⊆ out ++ [.raised co e.session] := List.subset_append_left ..
      have hses : e.parcel.id = e.session := e.id_of_call (by simp [hco])
      have hfresh := hses ▸ hfresh.resolve_right fun hr => by simp [hco] at hr
      refine ⟨⟨hmono.finish (a := [.raised co e.session]) ?_ (List.nodup_singleton _) ?_ ?_ ?_,
        hpos, hpending', hnodup', ps, qss, hnow.mono hsub (by simp),
        hold.imp fun _ _ hc => hc.mono hsub,
        perm_taken hperm (by simp [Act.request]) (List.Perm.refl _)⟩, rfl⟩
      · intro a ha
        rw [List.mem_singleton.mp ha]
        exact ⟨e.session, rfl, hses ▸ hused⟩
      · intro n hn hn'
        rw [List.mem_singleton.mp (show n ∈ [e.session] from hn)] at hn'
        exact htold.used _ hn' hfresh
      · simp
      · intro n w hw
        refine ⟨hw, fun hn => ?_⟩
        obtain ⟨-, p, hp, hpid⟩ := htold.waiting n w hw
        rw [List.mem_singleton.mp (show n ∈ [e.session] from hn)] at hpid
        exact (htold.issued _ p hp).2.1 (hpid ▸ hfresh)
  | some c =>
    obtain ⟨rs, hlive⟩ := Now.connect (s := s') hnow hconnect
    obtain ⟨htold', hlive'⟩ := hlive.write htold
      (fun p hp => issued_of_perm hperm (List.mem_append_left _ hp)) e hlt hfresh hused hle
    exact ⟨⟨htold', hpos, hpending', hnodup', _, qss, ⟨rs, hlive'⟩,
      hold.imp fun _ _ hc => hc.mono (List.subset_append_left ..), perm_issue hperm⟩, rfl⟩

/-! ## Runs -/

/-- The event is a request or a push. -/
def Event.requests : Event → Bool
  | .req .. | .push .. => true
  | _ => false

/-- A running agent is there. -/
theorem get_of_running {s : Link} {n : Option Nat} {c : Conn} (h : s.running n = some c) :
    s.get n = some c := (Option.filter_eq_some_iff.mp h).1

theorem put_session (s : Link) (c : Conn) (n : Option Nat) : (s.put c n).session = s.session := by
  cases n <;> rfl

/-- **The invariant is kept by every event.** -/
theorem Item.inv (i : Item) (h : Inv out i.pre)
    (hlt : i.ev.requests = true → i.pre.session < 2 ^ 31 - 1) :
    Inv (out ++ i.out) i.post ∧ i.post.session ≤ i.pre.session + i.ev.requests.toNat := by
  obtain ⟨s, ev, t, acts, hstep⟩ := i
  change step s ev = some (t, acts) at hstep
  dsimp only at h hlt ⊢
  cases ev with
  | req co addr msg =>
    simp only [step, Option.dite_none_right_eq_some] at hstep
    obtain ⟨hargs, hstep⟩ := hstep
    have hrequest := h.request (o := some co) hargs (hlt rfl)
    rwa [Option.some.inj hstep] at hrequest
  | push addr msg =>
    simp only [step, Option.dite_none_right_eq_some] at hstep
    obtain ⟨hargs, hstep⟩ := hstep
    have hrequest := h.request (o := none) hargs (hlt rfl)
    rwa [Option.some.inj hstep] at hrequest
  | connected i ok =>
    obtain ⟨e, he, hstep⟩ := Option.map_eq_some_iff.mp hstep
    obtain ⟨hinv, hsession⟩ := h.written he ok
    rw [hstep] at hinv hsession
    exact ⟨hinv, Nat.le_of_eq hsession⟩
  | arrive n low =>
    simp only [step, Option.bind_eq_bind, Option.bind_eq_some_iff] at hstep
    obtain ⟨c, hc, ⟨package, high, lows⟩, hnext, hstep⟩ := hstep
    obtain ⟨rfl, rfl⟩ := Prod.mk.inj (Option.some.inj hstep)
    refine ⟨h.agent (get_of_running hc) fun ps hcarries hissued => ?_,
      Nat.le_of_eq (put_session ..)⟩
    obtain ⟨c', acts, heq, hrhigh, hrlow, harrived⟩ := hcarries.underway.arrive hnext
    rw [heq]
    exact hcarries.arrived h.told hissued harrived hrhigh hrlow
  | lookup n i found =>
    simp only [step, Option.bind_eq_bind, Option.bind_eq_some_iff,
      Option.ite_none_right_eq_some] at hstep
    obtain ⟨c, hc, p, hp, hfound, hstep⟩ := hstep
    obtain ⟨rfl, rfl⟩ := Prod.mk.inj (Option.some.inj hstep)
    refine ⟨h.agent (get_of_running hc) fun ps hcarries hissued =>
      hcarries.lookup h.told hissued hp fun addr haddr => ?_, Nat.le_of_eq (put_session ..)⟩
    simpa [haddr] using hfound
  | finish n i ok msg =>
    simp only [step, Option.bind_eq_bind, Option.bind_eq_some_iff,
      Option.ite_none_right_eq_some] at hstep
    obtain ⟨c, hc, p, hp, hmsg, hstep⟩ := hstep
    obtain ⟨rfl, rfl⟩ := Prod.mk.inj (Option.some.inj hstep)
    exact ⟨h.agent (get_of_running hc) fun ps hcarries _ => hcarries.finish h.told hp ok hmsg,
      Nat.le_of_eq (put_session ..)⟩
  | reply low =>
    simp only [step, Option.bind_eq_bind, Option.bind_eq_some_iff] at hstep
    obtain ⟨c, hc, ⟨package, rhigh, rlow⟩, hnext, hstep⟩ := hstep
    obtain ⟨r, hr, hdispatch⟩ := h.reply hc hnext
    rw [hr] at hstep
    obtain ⟨hsession, hinv⟩ := hdispatch t acts (Option.some.inj hstep)
    exact ⟨hinv, Nat.le_of_eq hsession⟩
  | broke =>
    obtain ⟨c, hc, hstep⟩ := Option.map_eq_some_iff.mp hstep
    have hclose := h.close
    rw [hstep] at hclose
    refine ⟨hclose, Nat.le_of_eq ?_⟩
    rw [← show s.close.1 = t from congrArg Prod.fst hstep]
    rfl
  | exit n =>
    obtain ⟨c, hc, hstep⟩ := Option.map_eq_some_iff.mp hstep
    obtain ⟨rfl, rfl⟩ := Prod.mk.inj hstep
    exact ⟨h.exit (get_of_running hc), Nat.le_of_eq (put_session ..)⟩

/-- What a run has shown. -/
def acts (tr : List Item) : List Act := tr.flatMap Machine.Item.out

theorem Run.inv {tr : List Item} {s : Link} (h : calls.Run tr s)
    (hn : tr.countP (fun i => i.ev.requests) < 2 ^ 31 - 1) : Inv (acts tr) s := by
  refine (h.history (J := fun tr s => tr.countP (fun i => i.ev.requests) < 2 ^ 31 - 1 →
    s.session ≤ tr.countP (fun i => i.ev.requests) + 1 ∧ Inv (acts tr) s)
    (fun _ => ⟨Nat.le_refl _, Inv.init⟩) ?_ hn).2
  intro tr i _ ih hn
  rw [List.countP_append, List.countP_singleton] at hn ⊢
  obtain ⟨hle, hinv⟩ := ih (by omega)
  have hlt : i.ev.requests = true → i.pre.session < 2 ^ 31 - 1 := by
    intro hreq
    rw [if_pos hreq] at hn
    omega
  obtain ⟨hinv', hle'⟩ := Item.inv i hinv hlt
  have hacts : acts (tr ++ [i]) = acts tr ++ i.out := by
    rw [acts, List.flatMap_append, List.flatMap_singleton]
    rfl
  refine ⟨?_, hacts ▸ hinv'⟩
  cases hreq : i.ev.requests <;> rw [hreq] at hle' <;> simp at hle' ⊢ <;> omega

/-- The requests `ps` are under way in the connection. -/
def Link.Underway (s : Link) (ps : List RequestParcel) : Prop :=
  match s.conn with
  | some c => Call.Underway c ps
  | none => ps = []

/-- A call and a push to a name; the agent answers the call and exits, the response comes, and the
connection breaks with a second call. -/
def twoCalls : List Event :=
  [.req 1 (.handle 10) [1, 2, 3], .push (.name [64, 97]) [4], .connected 0 true,
    .connected 0 false, .arrive none false, .arrive none false, .lookup none 0 (some [5]),
    .finish none 0 true [9, 9], .exit none, .req 2 (.handle 10) [5], .connected 0 false,
    .reply false, .broke]

end LsServer.Cluster.Call
