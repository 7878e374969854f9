import LsServer.GameGate.Cache
import LsServer.GameGate.Server

/-!
# What the gate sends

The gate sends status texts, one after a handshake, and responses, as packages. A response waits in
the cache of its user, so the cache is part of the invariant (`Cached`).

Source: GameGate.lua 161-195 for the status texts, 250-260 and 274-279 for the responses;
snax/gateserver.lua as in `Server`.

* `Reply` is a status, or a response: a body, the status byte 0 or 1, and the session.
* `Act.sent` is what `socketdriver.send` gets for a connection. `sentOn` collects that of a socket,
  from its connect on, since a number may be used again.
* A package has its length in front, so the stream of a socket is read by the reader of packages
  (`Lib.Frames`).

Where the stream is cut is up to the network: the statement is about every list of pieces with that
stream. Bytes that were handed to a socket are taken to arrive in order; a connection that breaks
off gives a beginning of the stream.

Results:
* `Item.sends_reply`: what the gate sends is a package of a status or a response;
* `server_replies`: a client reads one reply for every send, however the stream is cut.
-/

namespace LsServer.GameGate

open LsServer.Lib LsServer.Lua LsServer.Client

variable {c : Conf}

/-- The texts that `auth` sends. -/
def statuses : List Bytes :=
  [bytes "200 OK", bytes "400 Bad Request", bytes "401 Unauthorized", bytes "403 Index Expired",
    bytes "404 User Not Found"]

/-- A status or a response that fits into a package. -/
def Reply (body : Bytes) : Prop :=
  (body ∈ statuses ∨ ∃ r session, body = responseBody r session) ∧ body.length ≤ 65535

/-- The responses in the caches are packages. -/
def Cached (g : Gate) : Prop :=
  ∀ j frame, (g.entries.cell j).response = some frame → ∃ body, Reply body ∧ frame = package body

theorem reply_status {status : Bytes} (h : status ∈ statuses) : Reply status := by
  refine ⟨Or.inl h, ?_⟩
  have hall : ∀ s ∈ statuses, s.length ≤ 65535 := by decide
  exact hall status h

/-- `string.pack(">s2", result)` is a package. -/
theorem responseFrame_reply {r : HandlerResult} {session : Nat} {frame : Bytes}
    (h : responseFrame r session = some frame) : ∃ body, Reply body ∧ frame = package body := by
  unfold responseFrame packS2 at h
  split at h
  · rename_i hlt
    exact ⟨responseBody r session, ⟨Or.inr ⟨r, session, rfl⟩, Nat.le_of_lt_succ hlt⟩,
      (Option.some.inj h).symm⟩
  · exact absurd h (by simp)

theorem authCheck_rejected {g : Gate} {message status : Bytes}
    (h : authCheck g message = .rejected status) : status ∈ statuses := by
  unfold authCheck at h
  repeat' split at h
  all_goals cases h
  all_goals decide

/-- What `auth` sends. -/
theorem auth_sends {g : Gate} {fd x : Fd} {addr message data : Bytes}
    (h : .send x data ∈ (auth g fd addr message).2) :
    ∃ status ∈ statuses, data = package status := by
  unfold auth at h
  have hclose : ∀ a ∈ (closeclient g fd).2, a = .close fd := by
    intro a ha
    rw [closeclient_eq] at ha
    split at ha <;> simp_all
  split at h
  · rcases List.mem_cons.mp h with h | h
    · exact ⟨_, by decide, (Act.send.inj h).2⟩
    · exact absurd (hclose _ h) (by simp)
  · rename_i status hstatus
    rcases List.mem_cons.mp h with h | h
    · exact ⟨status, authCheck_rejected hstatus, (Act.send.inj h).2⟩
    · exact absurd (hclose _ h) (by simp)
  · rcases List.mem_append.mp h with h | h
    · unfold bind at h
      dsimp only at h
      split at h <;> simp at h
    · exact ⟨_, by decide, (Act.send.inj (List.mem_singleton.mp h)).2⟩

/-! ## The step -/

/-- The responses of a step are in the caches, or they are those of a handler that has ended. -/
theorem Item.responds_reply (i : Item c) (hw : WellFormed i.pre) (hcached : Cached i.pre.gate)
    {fd : Fd} {data : Bytes} (h : i.Responds fd data) :
    ∃ body, Reply body ∧ data = package body := by
  cases i.serves hw with
  | idle _ _ _ hsend => exact absurd h (hsend fd data)
  | invoke _ _ _ hout => exact absurd (hout ▸ h.1) (by simp)
  | conflict _ _ _ _ _ hout => exact absurd (hout _ h.1) (by simp)
  | pending _ _ _ _ _ hout => exact absurd (hout ▸ h.1) (by simp)
  | @again _ _ _ j frame _ _ _ hr _ _ hout =>
    rcases hout _ h.1 with hsend | hclose
    · rw [(Act.send.inj hsend).2]
      exact hcached j frame hr
    · exact absurd hclose (by simp)
  | answer _ _ hf _ _ hout =>
    rcases hout _ h.1 with ⟨x, hsend, -⟩ | hclose
    · rw [(Act.send.inj hsend).2]
      exact responseFrame_reply hf
    · exact absurd hclose (by simp)
  | tooLong _ _ _ _ _ _ _ hout => exact absurd (hout _ h.1) (by simp)

theorem Item.cached (i : Item c) (hw : WellFormed i.pre) (hcached : Cached i.pre.gate) :
    Cached i.post.gate := by
  intro j frame h
  -- an entry that has its response from before
  have hold : (i.post.gate.entries.cell j).response = (i.pre.gate.entries.cell j).response →
      ∃ body, Reply body ∧ frame = package body := fun heq => hcached j frame (heq ▸ h)
  cases i.serves hw with
  | idle hg => exact hold (by rw [hg.entries])
  | invoke _ _ hg =>
    rw [hg.entries, Heap.cell_alloc] at h
    split at h
    · exact absurd h (by simp)
    · exact hcached j frame h
  | conflict _ _ _ _ hg => exact hold (by rw [hg.entries])
  | @pending fd u data j' _ _ _ _ hg =>
    refine hold ?_
    rw [hg, redirect, Heap.cell_set]
    split
    · rename_i hj
      rw [hj]
    · rfl
  | @again _ _ _ j' frame' _ _ _ hr hg =>
    rw [hg.response] at h
    split at h
    · rw [← Option.some.inj h]
      exact hcached j' frame' hr
    · exact hcached j frame h
  | answer _ _ hf hg =>
    rw [hg.response] at h
    split at h
    · rw [← Option.some.inj h]
      exact responseFrame_reply hf
    · exact hcached j frame h
  | tooLong _ _ _ _ hentries => exact hold (by rw [hentries])

/-- **What the gate sends** is a package of a status or a response. -/
theorem Item.sends_reply (i : Item c) (hw : WellFormed i.pre) (hcached : Cached i.pre.gate)
    {fd : Fd} {data : Bytes} (h : .send fd data ∈ i.out) :
    ∃ body, Reply body ∧ data = package body := by
  by_cases hauth : ∃ x d, i.ev = .packet x d ∧ i.pre.gate.handshake.get x ≠ none
  · obtain ⟨x, d, hev, hhs⟩ := hauth
    obtain ⟨addr, haddr⟩ := Option.ne_none_iff_exists'.mp hhs
    have hi := i.inv.1
    rw [hev, handle, Option.ite_none_left_eq_some] at hi
    have hout : i.out = (dispatchMsg c i.pre.gate x d).2 := by rw [Option.some.inj hi.2]
    unfold dispatchMsg handlerMessage at hout
    rw [haddr] at hout
    rw [hout] at h
    split at h
    · obtain ⟨status, hstatus, rfl⟩ := auth_sends h
      exact ⟨status, reply_status hstatus, rfl⟩
    · exact absurd h (by simp)
  · refine i.responds_reply hw hcached ⟨h, fun x d hev => ?_⟩
    by_contra hhs
    exact hauth ⟨x, d, hev, hhs⟩

theorem cached_init : Cached (machine c).init.gate :=
  fun _ _ h => absurd h (by simp [machine, Gate.init, Heap.empty])

theorem Run.cached {tr : List (Item c)} {s : State} (h : (machine c).Run tr s) :
    Cached s.gate := by
  have hboth : WellFormed s ∧ Cached s.gate := h.invariant (I := fun s =>
    WellFormed s ∧ Cached s.gate) ⟨wellFormed_init, cached_init⟩
      fun (i : Item c) hi => ⟨Item.wellFormed i hi.1, i.cached hi.1 hi.2⟩
  exact hboth.2

/-! ## What a client reads -/

/-- What an action sends on `fd`. -/
def Act.sent (fd : Fd) : Act → Option Bytes
  | .send x data => if x = fd then some data else none
  | _ => none

/-- The event opens `fd`. -/
def Event.opens (fd : Fd) : Event → Bool
  | .connect x _ => x = fd
  | _ => false

/-- What has been sent on `fd` since it has been opened, after one more event. -/
def Handling.onSent (fd : Fd) (sent : List Bytes) (h : Handling) : List Bytes :=
  if h.1.opens fd then [] else sent ++ h.2.filterMap (Act.sent fd)

/-- What has been sent on `fd` since it has been opened. -/
def sentOn (fd : Fd) (hs : List Handling) : List Bytes := hs.foldl (Handling.onSent fd) []

theorem mem_sentOn {fd : Fd} {hs : List Handling} {data : Bytes} (h : data ∈ sentOn fd hs) :
    ∃ x ∈ hs, .send fd data ∈ x.2 := by
  induction hs using List.reverseRecOn with
  | nil => exact absurd h (by simp [sentOn])
  | append_singleton hs x ih =>
    rw [sentOn, List.foldl_append, List.foldl_cons, List.foldl_nil, Handling.onSent] at h
    split at h
    · exact absurd h (by simp)
    · rcases List.mem_append.mp h with h | h
      · obtain ⟨y, hy, hsend⟩ := ih h
        exact ⟨y, List.mem_append_left _ hy, hsend⟩
      · obtain ⟨a, ha, hsent⟩ := List.mem_filterMap.mp h
        refine ⟨x, by simp, ?_⟩
        cases a with
        | send y d =>
          obtain ⟨rfl, hd⟩ := Option.ite_none_right_eq_some.mp hsent
          rwa [← Option.some.inj hd]
        | start | shutdown | close | invoke | disconnect => exact absurd hsent (by simp [Act.sent])

/-- Packages of replies are the packages of some replies. -/
theorem exists_replies {frames : List Bytes}
    (h : ∀ data ∈ frames, ∃ body, Reply body ∧ data = package body) :
    ∃ bodies : List Bytes, (∀ b ∈ bodies, Reply b) ∧ frames = bodies.map package := by
  induction frames with
  | nil => exact ⟨[], by simp, rfl⟩
  | cons data frames ih =>
    rw [List.forall_mem_cons] at h
    obtain ⟨⟨body, hbody, rfl⟩, hrest⟩ := h
    obtain ⟨bodies, hbodies, rfl⟩ := ih hrest
    exact ⟨body :: bodies, List.forall_mem_cons.mpr ⟨hbody, hbodies⟩, rfl⟩

/-- **A client reads one reply for every send**, a status or a response, in the order of the sends,
however the stream is cut; then it waits. -/
theorem server_replies {tr : List (server c).Item} {s : Server} (h : (server c).Run tr s)
    (fd : Fd) (rs : List Recv) (hopen : Open rs)
    (hrs : Client.received rs = (sentOn fd (handlings tr)).flatten) :
    ∃ bodies rest, (∀ b ∈ bodies, Reply b) ∧ sentOn fd (handlings tr) = bodies.map package ∧
      reads unpackPackage bodies.length [] rs = some (bodies, [], rest) ∧
      unpackF unpackPackage [] rest = .waiting [] := by
  obtain ⟨tr', hrun, hmap⟩ := run_does h
  have hsends : ∀ data ∈ sentOn fd (handlings tr), ∃ body, Reply body ∧ data = package body := by
    intro data hdata
    obtain ⟨x, hx, hsend⟩ := mem_sentOn hdata
    obtain ⟨i, hi, rfl⟩ := List.mem_map.mp (hmap ▸ hx)
    obtain ⟨a, b, rfl⟩ := List.append_of_mem hi
    have hpre := hrun.split.1
    exact Item.sends_reply i (Run.wellFormed hpre) (Run.cached hpre) hsend
  obtain ⟨bodies, hbodies, heq⟩ := exists_replies hsends
  obtain ⟨rest, hreads, hrest, hnil⟩ := framing_package.reads (fun b hb => (hbodies b hb).2) []
    hopen (by rw [List.nil_append, hrs, heq])
  exact ⟨bodies, rest, hbodies, heq, hreads, framing_package.waiting hrest hnil⟩

/-- The replies of `cutRun`: a status and the response to the second request. -/
def cutReplies : List Recv :=
  [.bytes [0], .again, .bytes [6, 50, 48, 48, 32, 79, 75, 0],
    .bytes ([9] ++ bytes "done" ++ 1 :: packBE 4 8)]

theorem server_replies_cutRun : ∃ tr s, (server {}).Run tr s ∧ tr.map Machine.Item.ev = cutRun ∧
    ∃ bodies rest, sentOn 5 (handlings tr) = bodies.map package ∧
      reads unpackPackage bodies.length [] cutReplies = some (bodies, [], rest) := by
  have h : ((server {}).items (server {}).init cutRun).map (fun tr =>
      decide (tr.map Machine.Item.ev = cutRun ∧
        Client.received cutReplies = (sentOn 5 (handlings tr)).flatten)) = some true := by
    decide +kernel
  obtain ⟨tr, hrun, hP⟩ := Machine.exists_run h
  obtain ⟨hev, hrs⟩ := of_decide_eq_true hP
  obtain ⟨bodies, rest, -, hsent, hreads, -⟩ := server_replies hrun 5 cutReplies (by decide) hrs
  exact ⟨tr, _, hrun, hev, bodies, rest, hsent, hreads⟩

end LsServer.GameGate
