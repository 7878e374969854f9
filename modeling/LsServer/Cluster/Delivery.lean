import LsServer.Cluster.Call

/-!
# Cluster calls: what arrives

The packages of a connection are the frames of parcels in two pipes, and what an agent or the sender
keeps of a large parcel is the inbox of the pipe. `Requests` and `Responses` relate a connection to
what is on its way in them; a step of the connection is a step of a pipe. So no package is read as
anything but what was written, and the parts of two large parcels never get mixed.

A request that has arrived is given to the service at once, or an address is looked up for it first.
`Underway` counts those that are on their way and those that wait for an address.

* `Requests` and `Responses` say what the two lists of a connection hold, as packages of frames, and
  that the table of the reader is the inbox that belongs to them.
* A request in parts is taken when its last part has arrived, and one in a single package at once. A
  part of a request whose head is not there cannot occur, nor can a session that is used twice at a
  time by requests in parts (`Distinct`).
* A response is the same the other way round; the sender takes it from its table when the last part
  is there, if a caller still waits.

Source: none of its own; `Call` has the code, and `Wire` the packages.

Results:
* `Underway.write`, `Responses.respond`: what is written is on its way;
* `Underway.arrive`, `Underway.lookup`: a package at an agent, or an address, gives the service a
  request that was on its way, or none;
* `Underway.perm_queries`: where no package is left, what is under way waits for an address;
* `Responses.reply`: a package at the sender completes a response, or none.
-/

namespace LsServer.Cluster.Call

open LsServer.Lua LsServer.Lib LsServer.Lib.Fragments

/-! ## Requests on their way -/

/-- The packages of frames. -/
def requestPackages (fs : List (Frame Nat Label UInt8)) : List Bytes :=
  fs.map (fillHeader ∘ requestFrame)

def responsePackages (fs : List (Frame Nat Bool UInt8)) : List Bytes :=
  fs.map (fillHeader ∘ responseFrame)

/-- What the sender writes. -/
structure ValidRequest (p : RequestParcel) : Prop where
  id : p.id < 2 ^ 31
  addr : p.label.1.Valid
  body : p.body.length < 2 ^ 31
  push : requestCut.small p = true → p.label.2 = (p.id == 0)
  large : requestCut.small p = false → p.id ≠ 0

/-- An entry of `large_request`, from what has arrived. -/
def largeOf (g : Partial Label UInt8) : LargeRequest :=
  ⟨some g.label.1, g.label.2, pieces g.size g.got⟩

/-- **The requests `ps` are on their way** to the agent of the connection. -/
structure Requests (c : Conn) (ps : List RequestParcel) : Prop where
  pipe : ∃ pipe : Pipe Nat Label UInt8, c.high = requestPackages pipe.high ∧
    c.low = requestPackages pipe.low ∧
    (∀ n, c.agent.largeRequest.get n = (pipe.inbox n).map largeOf) ∧ Flying requestCut pipe ps
  valid : ∀ p ∈ ps, ValidRequest p

theorem Requests.congr {c c' : Conn} {ps : List RequestParcel} (h : Requests c ps)
    (hhigh : c'.high = c.high) (hlow : c'.low = c.low)
    (hlarge : c'.agent.largeRequest = c.agent.largeRequest) : Requests c' ps := by
  obtain ⟨⟨pipe, heq, heq', hget, hflying⟩, hvalid⟩ := h
  exact ⟨⟨pipe, hhigh.trans heq, hlow.trans heq', hlarge ▸ hget, hflying⟩, hvalid⟩

/-- **The requests `ps` are under way**: on their way to the agent, or it looks up an address for
them. -/
def Underway (c : Conn) (ps : List RequestParcel) : Prop :=
  ∃ qs, Requests c qs ∧ ps.Perm (qs ++ c.agent.queries)

theorem Underway.congr {c c' : Conn} {ps : List RequestParcel} (h : Underway c ps)
    (hhigh : c'.high = c.high) (hlow : c'.low = c.low)
    (hlarge : c'.agent.largeRequest = c.agent.largeRequest)
    (hqueries : c'.agent.queries = c.agent.queries) : Underway c' ps := by
  obtain ⟨qs, hreq, hps⟩ := h
  exact ⟨qs, hreq.congr hhigh hlow hlarge, hqueries ▸ hps⟩

theorem underway_init : Underway .init [] :=
  ⟨[], ⟨⟨⟨[], [], fun _ => none⟩, rfl, rfl, fun _ => Table.get_empty _, .empty _⟩, by simp⟩,
    List.Perm.refl _⟩

/-- Where nothing is on its way, an address is looked up. -/
theorem Underway.perm_queries {c : Conn} {ps : List RequestParcel} (h : Underway c ps)
    (hhigh : c.high = []) (hlow : c.low = []) : ps.Perm c.agent.queries := by
  obtain ⟨qs, ⟨⟨pipe, heq, heq', -, hflying⟩, -⟩, hps⟩ := h
  rwa [hflying.eq_nil (List.map_eq_nil_iff.mp (heq.symm.trans hhigh))
    (List.map_eq_nil_iff.mp (heq'.symm.trans hlow)), List.nil_append] at hps

theorem wire_length {addr : Addr} (h : addr.Valid) : addr.wire.length ≤ 256 := by
  cases addr with
  | handle n => simp [Addr.wire, fillUint32_length]
  | name s =>
    rw [Addr.wire, List.length_cons]
    exact Nat.succ_le_succ h.2

/-- What `packrequest` takes can be written. -/
theorem valid_of_packrequest {addr : Addr} {session : Nat} {msg : Bytes} {isPush : Bool}
    {x : Bytes × Nat × Option (List Bytes)} (haddr : Addr.uint32 addr)
    (h : packrequest addr session msg isPush = some x) : addr.Valid ∧ session ≠ 0 := by
  unfold packrequest at h
  split at h
  · exact absurd h (by simp)
  · rename_i hne
    refine ⟨?_, hne⟩
    cases addr with
    | handle n => exact haddr
    | name name =>
      by_cases hlen : name.length < 1 ∨ 255 < name.length
      · have hnone : packreqString name session msg isPush = none := by
          rw [packreqString, if_pos hlen]
        exact absurd h (by simp [hnone])
      · unfold Addr.Valid
        omega

theorem validRequest {addr : Addr} {session : Nat} {msg : Bytes} {p : Bool}
    (haddr : addr.Valid) (hne : session ≠ 0) (hlt : session < 2 ^ 31) (hmsg : msg.length < 2 ^ 31) :
    ValidRequest (requestParcel addr session msg p) := by
  unfold requestParcel
  refine ⟨?_, haddr, hmsg, fun hsmall => ?_, fun hlarge => ?_⟩
  · dsimp only
    split
    · decide
    · exact hlt
  · have hlt : msg.length < MULTI_PART := of_decide_eq_true hsmall
    cases p with
    | false => simp [hne]
    | true => simp [hlt]
  · have hlarge : ¬msg.length < MULTI_PART := of_decide_eq_false hlarge
    simp [hlarge, hne]

/-- **The sender writes a request.** -/
theorem Underway.write {c : Conn} {ps : List RequestParcel} (h : Underway c ps) {addr : Addr}
    {session new : Nat} {msg request : Bytes} {isPush : Bool} {padding : Option (List Bytes)}
    (hpack : packrequest addr session msg isPush = some (request, new, padding))
    (hv : ValidRequest (requestParcel addr session msg isPush)) (hne : session ≠ 0)
    (hnew : ∀ q ∈ ps, (requestParcel addr session msg isPush).id = q.id →
      requestCut.small (requestParcel addr session msg isPush) = true ∧
        requestCut.small q = true) :
    ∃ high low, c.write request padding = { c with high := high, low := low } ∧
      Underway { c with high := high, low := low }
        (requestParcel addr session msg isPush :: ps) := by
  obtain ⟨qs, ⟨⟨pipe, hhigh, hlow, hlarge, hflying⟩, hvalid⟩, hps⟩ := h
  have hsend := hflying.send fun q hq => hnew q (hps.symm.subset (List.mem_append_left _ hq))
  have hall := List.forall_mem_cons.mpr ⟨hv, hvalid⟩
  rw [packrequest_eq (show addr.Valid from hv.addr) hne] at hpack
  have hframes := frames_request addr session msg isPush
  obtain ⟨rfl, hpadding⟩ := Prod.mk.inj (Option.some.inj hpack)
  obtain ⟨rfl, rfl⟩ := Prod.mk.inj hpadding
  by_cases hsmall : msg.length < MULTI_PART
  · have hcut : requestCut.small (requestParcel addr session msg isPush) = true :=
      decide_eq_true hsmall
    rw [Pipe.send, if_pos hcut] at hsend
    rw [if_pos hsmall] at hframes ⊢
    refine ⟨_, c.low, rfl, _, ⟨⟨⟨pipe.high ++ requestCut.frames
      (requestParcel addr session msg isPush), pipe.low, pipe.inbox⟩, ?_, hlow, hlarge, hsend⟩,
      hall⟩, hps.cons _⟩
    dsimp only
    rw [requestPackages, List.map_append, hframes, hhigh]
    rfl
  · have hcut : ¬requestCut.small (requestParcel addr session msg isPush) = true := by
      simpa [requestCut, requestParcel] using hsmall
    rw [Pipe.send, if_neg hcut] at hsend
    rw [if_neg hsmall] at hframes ⊢
    refine ⟨c.high, _, rfl, _, ⟨⟨⟨pipe.high, pipe.low ++ requestCut.frames
      (requestParcel addr session msg isPush), pipe.inbox⟩, hhigh, ?_, hlarge, hsend⟩, hall⟩,
      hps.cons _⟩
    dsimp only
    rw [requestPackages, List.map_append, hframes, hlow]
    rfl

/-- A package of a request fits, and is read. -/
theorem read_request {f : Frame Nat Label UInt8} (hfits : RequestFits f)
    (hlen : (requestFrame f).length < 2 ^ 16) :
    ((Skynet.packages.read (fillHeader (requestFrame f))).bind fun x => unpackrequest x.1) =
      some (unpacked f) := by
  rw [packages_fillHeader hlen, Option.bind_some, unpackrequest_frame hfits]

theorem read_response {f : Frame Nat Bool UInt8} (hfits : ResponseFits f)
    (hlen : (responseFrame f).length < 2 ^ 16) :
    ((Skynet.packages.read (fillHeader (responseFrame f))).bind fun x => unpackresponse x.1) =
      some (replyOf f) := by
  rw [packages_fillHeader hlen, Option.bind_some, unpackresponse_frame hfits]

/-- The small request `p`. -/
theorem read_whole {p : RequestParcel} (hv : ValidRequest p) (hsmall : requestCut.small p = true) :
    ((Skynet.packages.read (fillHeader (requestFrame (.whole p)))).bind fun x =>
      unpackrequest x.1) = some (.request p.label.1 p.id p.body p.label.2) := by
  have hlt : p.body.length < 0x8000 := of_decide_eq_true hsmall
  refine read_request ⟨Nat.lt_trans hv.id (by decide), hv.addr, hv.push hsmall⟩ ?_
  have hwire : p.label.1.wire.length ≤ 256 := wire_length hv.addr
  change (requestType p.label.1 false p.label.2 ::
    (p.label.1.wire ++ (fillUint32 p.id ++ p.body))).length < 2 ^ 16
  simp only [List.length_cons, List.length_append, fillUint32_length]
  omega

/-- The head of the large request `p`. -/
theorem read_head {p : RequestParcel} (hv : ValidRequest p) :
    ((Skynet.packages.read (fillHeader (requestFrame (.head p.id p.label p.body.length)))).bind
      fun x => unpackrequest x.1) = some (.head p.label.1 p.id p.body.length p.label.2) := by
  have hwire : p.label.1.wire.length ≤ 256 := wire_length hv.addr
  refine read_request ⟨Nat.lt_trans hv.id (by decide), hv.addr,
    Nat.lt_trans hv.body (by decide)⟩ ?_
  change (requestType p.label.1 true p.label.2 ::
    (p.label.1.wire ++ (fillUint32 p.id ++ fillUint32 p.body.length))).length < 2 ^ 16
  simp only [List.length_cons, List.length_append, fillUint32_length]
  omega

/-- A part of it. -/
theorem read_part {p : RequestParcel} (hv : ValidRequest p) {b : Bytes} (last : Bool)
    (hb : b.length ≤ MULTI_PART) :
    ((Skynet.packages.read (fillHeader (requestFrame (.part p.id b last)))).bind fun x =>
      unpackrequest x.1) = some (.part p.id b !last) := by
  refine read_request (Nat.lt_trans hv.id (by decide)) ?_
  simp only [requestFrame, List.length_cons, List.length_append, fillUint32_length]
  unfold MULTI_PART at hb
  omega

/-- What happens at an agent: it gives a request to its service, or none. -/
inductive Arrived (c : Conn) (ps : List RequestParcel) (c' : Conn) : List Act → Prop
  | quiet (htasks : c'.agent.tasks = c.agent.tasks) (h : Underway c' ps) : Arrived c ps c' []
  | handed {p : RequestParcel} {ps' : List RequestParcel} (hp : ps.Perm (p :: ps'))
    (htasks : c'.agent.tasks = (c.agent.hand p).tasks) (h : Underway c' ps') :
    Arrived c ps c' [.handed p]

theorem hand_eq (a : Agent) (p : RequestParcel) :
    a.hand p = { a with tasks := (a.hand p).tasks } := by
  unfold Agent.hand
  split <;> rfl

/-- A package has been taken out of the lists, and the agent has put parts together. -/
def Conn.took (c : Conn) (high low : List Bytes) (large : Table Nat LargeRequest) : Conn :=
  { c with high := high, low := low, agent := { c.agent with largeRequest := large } }

/-- A request has arrived, and is complete. -/
theorem arrived_accept {c : Conn} {ps qs qs' : List RequestParcel} {p : RequestParcel}
    (hps : ps.Perm (qs ++ c.agent.queries)) (hp : qs.Perm (p :: qs')) (high low : List Bytes)
    (large : Table Nat LargeRequest)
    (h : Requests (c.took high low large) qs') :
    ∃ agent acts, Agent.accept { c.agent with largeRequest := large } (some p.label.1) p.id
        (some p.body) p.label.2 = (agent, [], acts) ∧
      Arrived c ps { c with high := high, low := low, agent := agent } acts := by
  have hall : ps.Perm (p :: (qs' ++ c.agent.queries)) := hps.trans (hp.append_right _)
  unfold Agent.accept
  dsimp only
  by_cases hlooked : Addr.looked p.label.1 = true
  · rw [if_pos hlooked]
    refine ⟨_, _, rfl, .quiet rfl ⟨qs', h.congr rfl rfl rfl, hall.trans ?_⟩⟩
    rw [← List.append_assoc]
    exact (List.perm_append_singleton p _).symm
  · rw [if_neg hlooked]
    refine ⟨_, _, rfl, .handed hall ?_ ⟨qs', h.congr rfl rfl ?_, ?_⟩⟩
    · unfold Agent.hand
      split <;> rfl
    · rw [hand_eq]
      rfl
    · rw [hand_eq]

theorem requestPackages_cons {fs : List (Frame Nat Label UInt8)} {b : Bytes} {bs : List Bytes}
    (h : b :: bs = requestPackages fs) :
    ∃ f gs, fs = f :: gs ∧ b = fillHeader (requestFrame f) ∧ bs = requestPackages gs := by
  cases fs with
  | nil => exact absurd h (by simp [requestPackages])
  | cons f gs =>
    obtain ⟨hb, hbs⟩ := List.cons.inj h
    exact ⟨f, gs, rfl, hb, hbs⟩

/-- The package was taken from one of the two lists. -/
theorem next_cases {low : Bool} {high lows high' lows' : List Bytes} {package : Bytes}
    (h : next low high lows = some (package, high', lows')) :
    (high = package :: high' ∧ lows' = lows) ∨ (lows = package :: lows' ∧ high' = high) := by
  unfold next at h
  cases low with
  | true =>
    cases lows with
    | nil => exact absurd h (by simp)
    | cons b lows =>
      simp only [if_true, Option.some.injEq, Prod.mk.injEq] at h
      obtain ⟨rfl, rfl, rfl⟩ := h
      exact Or.inr ⟨rfl, rfl⟩
  | false =>
    cases high with
    | nil => exact absurd h (by simp)
    | cons b high =>
      simp only [Bool.false_eq_true, if_false, Option.some.injEq, Prod.mk.injEq] at h
      obtain ⟨rfl, rfl, rfl⟩ := h
      exact Or.inl ⟨rfl, rfl⟩

/-- **A package arrives at an agent.** -/
theorem Underway.arrive {c : Conn} {ps : List RequestParcel} (h : Underway c ps) {low : Bool}
    {package : Bytes} {high lows : List Bytes}
    (hnext : next low c.high c.low = some (package, high, lows)) :
    ∃ c' acts, { c with high := high, low := lows }.arrive package = (c', acts) ∧
      c'.rhigh = c.rhigh ∧ c'.rlow = c.rlow ∧ Arrived c ps c' acts := by
  obtain ⟨qs, ⟨⟨pipe, hhigh, hlow, hlarge, hflying⟩, hvalid⟩, hps⟩ := h
  rcases next_cases hnext with ⟨heq, rfl⟩ | ⟨heq, rfl⟩
  · -- a small request
    obtain ⟨f, gs, hf, rfl, rfl⟩ := requestPackages_cons (heq.symm.trans hhigh)
    obtain ⟨p, qs', rfl, hsmall, hin, hp, hfl⟩ := hflying.high hf
    have hv := hvalid p (hp.symm.subset (List.mem_cons_self ..))
    have hnone : c.agent.largeRequest.get p.id = none := by rw [hlarge, hin]; rfl
    obtain ⟨agent, acts, haccept, harrived⟩ := arrived_accept hps hp
      (requestPackages gs) c.low c.agent.largeRequest
      ⟨⟨⟨gs, pipe.low, pipe.inbox⟩, rfl, hlow, hlarge, hfl⟩, fun q hq =>
        hvalid q (hp.symm.subset (List.mem_cons_of_mem _ hq))⟩
    refine ⟨_, acts, ?_, ?_, ?_, harrived⟩
    · simp [Conn.arrive, read_whole hv hsmall, Agent.dispatchRequest, Agent.complete, hnone,
        haccept]
    · rfl
    · rfl
  · -- a frame of a large one
    obtain ⟨f, gs, hf, rfl, rfl⟩ := requestPackages_cons (heq.symm.trans hlow)
    have hset : ∀ (n : Nat) (g : Partial Label UInt8) (m : Nat),
        (c.agent.largeRequest.set n (largeOf g)).get m =
          ((Function.update pipe.inbox n (some g)) m).map largeOf := by
      intro n g m
      rw [Table.get_set, Function.update_apply]
      split
      · rfl
      · exact hlarge m
    cases hflying.low hf with
    | @head p hin hmem hl hfl =>
      have hnone : c.agent.largeRequest.get p.id = none := by rw [hlarge, hin]; rfl
      refine ⟨c.took c.high (requestPackages gs) (c.agent.largeRequest.set p.id
        (largeOf ⟨p.label, p.body.length, []⟩)), [], ?_, rfl, rfl,
        .quiet rfl ⟨qs, ⟨⟨⟨pipe.high, gs, _⟩, hhigh, rfl,
          hset p.id ⟨p.label, p.body.length, []⟩, hfl⟩, hvalid⟩, hps⟩⟩
      simp [Conn.arrive, read_head (hvalid p hmem), Agent.dispatchRequest, Agent.append, hnone,
        Conn.took, largeOf, pieces]
    | @part p got b hin hmem hl hlen hfl =>
      have hsome : c.agent.largeRequest.get p.id =
          some (largeOf ⟨p.label, p.body.length, got⟩) := by
        rw [hlarge, hin]
        rfl
      refine ⟨c.took c.high (requestPackages gs) (c.agent.largeRequest.set p.id
        (largeOf ⟨p.label, p.body.length, got ++ [b]⟩)), [], ?_, rfl, rfl,
        .quiet rfl ⟨qs, ⟨⟨⟨pipe.high, gs, _⟩, hhigh, rfl,
          hset p.id ⟨p.label, p.body.length, got ++ [b]⟩, hfl⟩, hvalid⟩, hps⟩⟩
      simp [Conn.arrive, read_part (hvalid p hmem) false hlen, Agent.dispatchRequest,
        Agent.append, hsome, Conn.took, largeOf, pieces]
    | @last p qs' got b hin hbody hl hlen hp hfl =>
      have hv := hvalid p (hp.symm.subset (List.mem_cons_self ..))
      have hsome : c.agent.largeRequest.get p.id =
          some (largeOf ⟨p.label, p.body.length, got⟩) := by
        rw [hlarge, hin]
        rfl
      have hconcat : concat (pieces p.body.length got ++ [.data b]) = some p.body := by
        have h := concat_pieces (show (got ++ [b]).flatten.length = p.body.length by rw [hbody])
        rw [hbody] at h
        simpa [pieces] using h
      have hdel : ∀ m, (c.agent.largeRequest.del p.id).get m =
          (Function.update pipe.inbox p.id none m).map largeOf := by
        intro m
        rw [Table.get_del, Function.update_apply]
        split
        · rfl
        · exact hlarge m
      obtain ⟨agent, acts, haccept, harrived⟩ := arrived_accept hps hp c.high
        (requestPackages gs) (c.agent.largeRequest.del p.id)
        ⟨⟨⟨pipe.high, gs, _⟩, hhigh, rfl, hdel, hfl⟩, fun q hq =>
          hvalid q (hp.symm.subset (List.mem_cons_of_mem _ hq))⟩
      refine ⟨_, acts, ?_, ?_, ?_, harrived⟩
      · simp [Conn.arrive, read_part hv true hlen, Agent.dispatchRequest, Agent.complete, hsome,
          largeOf, hconcat, haccept]
      · rfl
      · rfl

/-- One of a list, and the others. -/
theorem perm_eraseIdx {ps : List RequestParcel} {i : Nat} {p : RequestParcel}
    (hp : ps[i]? = some p) : ps.Perm (p :: ps.eraseIdx i) := by
  obtain ⟨hlt, rfl⟩ := List.getElem?_eq_some_iff.mp hp
  exact (List.getElem_cons_eraseIdx_perm hlt).symm

/-- The address for the query `i` has been found. -/
def Conn.found (c : Conn) (i : Nat) : Conn :=
  { c with agent := { c.agent with queries := c.agent.queries.eraseIdx i } }

/-- **An address has been looked up.** -/
theorem Underway.lookup {c : Conn} {ps : List RequestParcel} (h : Underway c ps) {i : Nat}
    {p : RequestParcel} (hp : c.agent.queries[i]? = some p) :
    ∃ ps', ps.Perm (p :: ps') ∧ Underway (c.found i) ps' := by
  obtain ⟨qs, hreq, hps⟩ := h
  refine ⟨qs ++ c.agent.queries.eraseIdx i, ?_, qs, hreq.congr rfl rfl rfl, List.Perm.refl _⟩
  exact (hps.trans ((perm_eraseIdx hp).append_left qs)).trans List.perm_middle

/-! ## Responses on their way -/

/-- What an agent writes. An error fits into one package, and so does what answers a push of the
session 0. -/
structure ValidResponse (r : ResponseParcel) : Prop where
  id : r.id < 2 ^ 31
  body : r.body.length < 2 ^ 31
  error : r.label = false → r.body.length ≤ MULTI_PART
  push : r.id = 0 → responseCut.small r = true

/-- **The responses `rs` are on their way** to those who wait in `thread`. -/
structure Responses (thread : Table Nat Waiting) (c : Conn) (rs : List ResponseParcel) : Prop where
  pipe : ∃ pipe : Pipe Nat Bool UInt8, c.rhigh = responsePackages pipe.high ∧
    c.rlow = responsePackages pipe.low ∧
    (∀ n w, thread.get n = some w →
      w.resultData = (pipe.inbox n).map fun g => pieces g.size g.got) ∧
    Flying responseCut pipe rs
  valid : ∀ r ∈ rs, ValidResponse r

theorem Responses.congr {thread : Table Nat Waiting} {c c' : Conn} {rs : List ResponseParcel}
    (h : Responses thread c rs) (hhigh : c'.rhigh = c.rhigh) (hlow : c'.rlow = c.rlow) :
    Responses thread c' rs := by
  obtain ⟨⟨pipe, heq, heq', hrest⟩, hvalid⟩ := h
  exact ⟨⟨pipe, hhigh.trans heq, hlow.trans heq', hrest⟩, hvalid⟩

theorem responses_init {thread : Table Nat Waiting} (h : ∀ n, thread.get n = none) :
    Responses thread .init [] := by
  refine ⟨⟨⟨[], [], fun _ => none⟩, rfl, rfl, fun n w hw => ?_, .empty _⟩, by simp⟩
  exact absurd ((h n).symm.trans hw) (by simp)

theorem responsePackages_cons {fs : List (Frame Nat Bool UInt8)} {b : Bytes} {bs : List Bytes}
    (h : b :: bs = responsePackages fs) :
    ∃ f gs, fs = f :: gs ∧ b = fillHeader (responseFrame f) ∧ bs = responsePackages gs := by
  cases fs with
  | nil => exact absurd h (by simp [responsePackages])
  | cons f gs =>
    obtain ⟨hb, hbs⟩ := List.cons.inj h
    exact ⟨f, gs, rfl, hb, hbs⟩

/-- A response changes nothing but what is on its way back. -/
theorem respond_eq (c : Conn) (session : Nat) (ok : Bool) (msg : Bytes) :
    ∃ rhigh rlow, c.respond session ok msg = { c with rhigh := rhigh, rlow := rlow } := by
  unfold Conn.respond
  split
  · exact ⟨_, _, rfl⟩
  · exact ⟨_, _, rfl⟩

/-- Someone begins to wait, under a number that no response has. -/
theorem Responses.wait {thread : Table Nat Waiting} {c : Conn} {rs : List ResponseParcel}
    (h : Responses thread c rs) {n : Nat} (hn : ∀ r ∈ rs, r.id ≠ n) (co : Co) :
    Responses (thread.set n ⟨co, none⟩) c rs := by
  obtain ⟨⟨pipe, hhigh, hlow, hdata, hflying⟩, hvalid⟩ := h
  refine ⟨⟨pipe, hhigh, hlow, fun m w hw => ?_, hflying⟩, hvalid⟩
  rw [Table.get_set] at hw
  split at hw
  · rename_i hm
    have hnone : pipe.inbox m = none := by
      by_contra hne
      obtain ⟨r, hr, hid, -⟩ := hflying.mem_of_inbox hne
      exact hn r hr (hid.trans hm)
    rw [← Option.some.inj hw, hnone]
    rfl
  · exact hdata m w hw

/-- **The agent writes a response.** -/
theorem Responses.respond {thread : Table Nat Waiting} {c : Conn} {rs : List ResponseParcel}
    (h : Responses thread c rs) {session : Nat} {ok : Bool} {msg : Bytes}
    (hv : ValidResponse (responseParcel session ok msg))
    (hnew : ∀ r ∈ rs, session = r.id →
      responseCut.small (responseParcel session ok msg) = true ∧ responseCut.small r = true) :
    ∃ rhigh rlow, c.respond session ok msg = { c with rhigh := rhigh, rlow := rlow } ∧
      Responses thread { c with rhigh := rhigh, rlow := rlow }
        (responseParcel session ok msg :: rs) := by
  obtain ⟨⟨pipe, hhigh, hlow, hdata, hflying⟩, hvalid⟩ := h
  have hsend := hflying.send (p := responseParcel session ok msg) hnew
  have hall : ∀ r ∈ responseParcel session ok msg :: rs, ValidResponse r :=
    List.forall_mem_cons.mpr ⟨hv, hvalid⟩
  unfold Conn.respond
  rw [packresponse_eq]
  by_cases hsmall : responseCut.small (responseParcel session ok msg) = true
  · rw [Pipe.send, if_pos hsmall, Cut.frames, if_pos hsmall] at hsend
    rw [if_pos hsmall]
    refine ⟨_, _, rfl, ⟨⟨⟨pipe.high ++ [.whole (responseParcel session ok msg)], pipe.low,
      pipe.inbox⟩, ?_, hlow, hdata, hsend⟩, hall⟩⟩
    simp [hhigh, responsePackages]
  · rw [Pipe.send, if_neg hsmall] at hsend
    rw [if_neg hsmall]
    refine ⟨_, _, rfl, ⟨⟨⟨pipe.high, pipe.low ++ responseCut.frames
      (responseParcel session ok msg), pipe.inbox⟩, hhigh, ?_, hdata, hsend⟩, hall⟩⟩
    simp [hlow, responsePackages]

/-- Only a message is cut. -/
theorem label_of_large {r : ResponseParcel} (h : responseCut.small r = false) : r.label = true := by
  cases hlabel : r.label with
  | false => simp [responseCut, hlabel] at h
  | true => rfl

/-- What a package of a response is for: it adds to the data of who waits, or it completes a
response. -/
inductive Replied (thread : Table Nat Waiting) (c : Conn) (rs : List ResponseParcel) (r : Reply) :
    Prop
  | more {p : ResponseParcel} (hmem : p ∈ rs) (hsession : r.session = p.id)
    (hpadding : (r.padding && r.ok) = true)
    (hw : ∀ w, thread.get r.session = some w → Responses (thread.set r.session
      { w with resultData := some (w.resultData.getD [] ++ [r.data]) }) c rs)
    (hnone : thread.get r.session = none → Responses thread c rs)
  | completed {p : ResponseParcel} {rs' : List ResponseParcel} (hp : rs.Perm (p :: rs'))
    (hsession : r.session = p.id) (hpadding : (r.padding && r.ok) = false)
    (hw : ∀ w, thread.get p.id = some w →
      resultOf w r = if p.label then some p.body else none)
    (h : Responses (thread.del p.id) c rs')

/-- The inbox of one number changes, and so does what has come for it. -/
theorem resultData_set {thread : Table Nat Waiting}
    {inbox : Nat → Option (Partial Bool UInt8)}
    (hdata : ∀ n w, thread.get n = some w →
      w.resultData = (inbox n).map fun g => pieces g.size g.got)
    (n : Nat) (g : Partial Bool UInt8) (co : Co) (m : Nat) (w : Waiting)
    (hw : (thread.set n ⟨co, some (pieces g.size g.got)⟩).get m = some w) :
    w.resultData = (Function.update inbox n (some g) m).map fun g => pieces g.size g.got := by
  rw [Table.get_set] at hw
  rw [Function.update_apply]
  split at hw
  · rename_i hm
    rw [if_pos hm, ← Option.some.inj hw]
    rfl
  · rename_i hm
    rw [if_neg hm]
    exact hdata m w hw

/-- **A package of a response arrives.** -/
theorem Responses.reply {thread : Table Nat Waiting} {c : Conn} {rs : List ResponseParcel}
    (h : Responses thread c rs) {low : Bool} {package : Bytes} {rhigh rlow : List Bytes}
    (hnext : next low c.rhigh c.rlow = some (package, rhigh, rlow)) :
    ∃ r, ((Skynet.packages.read package).bind fun x => unpackresponse x.1) = some r ∧
      Replied thread { c with rhigh := rhigh, rlow := rlow } rs r := by
  obtain ⟨⟨pipe, hhigh, hlow, hdata, hflying⟩, hvalid⟩ := h
  rcases next_cases hnext with ⟨heq, rfl⟩ | ⟨heq, rfl⟩
  · -- a small response
    obtain ⟨f, gs, hf, rfl, rfl⟩ := responsePackages_cons (heq.symm.trans hhigh)
    obtain ⟨p, rs', rfl, hsmall, hin, hp, hfl⟩ := hflying.high hf
    have hv := hvalid p (hp.symm.subset (List.mem_cons_self ..))
    have hlt : p.body.length ≤ 0x8000 := by
      cases hlabel : p.label with
      | false => exact hv.error hlabel
      | true =>
        simp only [responseCut, hlabel, Bool.not_true, Bool.false_or] at hsmall
        exact of_decide_eq_true hsmall
    refine ⟨replyOf (.whole p), read_response (Nat.lt_trans hv.id (by decide)) ?_,
      .completed hp rfl rfl (fun w hw => ?_) ⟨⟨⟨gs, pipe.low, pipe.inbox⟩, rfl, hlow, ?_, hfl⟩,
        fun q hq => hvalid q (hp.symm.subset (List.mem_cons_of_mem _ hq))⟩⟩
    · simp only [responseFrame, List.length_cons, List.length_append, fillUint32_length]
      omega
    · have hnone : w.resultData = none := by
        rw [hdata p.id w hw, hin]
        rfl
      unfold resultOf
      rw [hnone]
      rfl
    · exact fun n w hw => hdata n w (Table.get_of_get_del hw).2
  · -- a frame of a large one
    obtain ⟨f, gs, hf, rfl, rfl⟩ := responsePackages_cons (heq.symm.trans hlow)
    have hpart : ∀ (p : ResponseParcel) (b : Bytes) (last : Bool), ValidResponse p →
        b.length ≤ MULTI_PART → ((Skynet.packages.read
          (fillHeader (responseFrame (.part p.id b last)))).bind fun x => unpackresponse x.1) =
          some (replyOf (.part p.id b last)) := by
      intro p b last hv hb
      refine read_response (f := .part p.id b last) (Nat.lt_trans hv.id (by decide)) ?_
      simp only [responseFrame, List.length_cons, List.length_append, fillUint32_length]
      unfold MULTI_PART at hb
      omega
    cases hflying.low hf with
    | @head p hin hmem hl hfl =>
      have hv := hvalid p hmem
      have hlabel := label_of_large hl
      refine ⟨replyOf (.head p.id p.label p.body.length), read_response
        ⟨Nat.lt_trans hv.id (by decide), hlabel, Nat.lt_trans hv.body (by decide)⟩ ?_,
        .more hmem rfl (by simp [replyOf, hlabel]) (fun w hw => ?_) fun hnone => ?_⟩
      · simp [responseFrame, fillUint32_length]
      · have hnil : w.resultData = none := by
          rw [hdata p.id w hw, hin]
          rfl
        rw [hnil]
        exact ⟨⟨⟨pipe.high, gs, _⟩, hhigh, rfl,
          resultData_set hdata p.id ⟨p.label, p.body.length, []⟩ w.co, hfl⟩, hvalid⟩
      · refine ⟨⟨⟨pipe.high, gs, _⟩, hhigh, rfl, fun n w hw => ?_, hfl⟩, hvalid⟩
        have hne : n ≠ p.id := by
          rintro rfl
          exact absurd (hnone.symm.trans hw) (by simp)
        dsimp only
        rw [Function.update_of_ne hne]
        exact hdata n w hw
    | @part p got b hin hmem hl hlen hfl =>
      refine ⟨replyOf (.part p.id b false), hpart p b false (hvalid p hmem) hlen,
        .more hmem rfl rfl (fun w hw => ?_) fun hnone => ?_⟩
      · have hsome : w.resultData = some (pieces p.body.length got) := by
          rw [hdata p.id w hw, hin]
          rfl
        have happ : pieces p.body.length got ++ [.data b] = pieces p.body.length (got ++ [b]) := by
          simp [pieces]
        rw [hsome, replyOf, Option.getD_some, happ]
        exact ⟨⟨⟨pipe.high, gs, _⟩, hhigh, rfl,
          resultData_set hdata p.id ⟨p.label, p.body.length, got ++ [b]⟩ w.co, hfl⟩, hvalid⟩
      · refine ⟨⟨⟨pipe.high, gs, _⟩, hhigh, rfl, fun n w hw => ?_, hfl⟩, hvalid⟩
        have hne : n ≠ p.id := by
          rintro rfl
          exact absurd (hnone.symm.trans hw) (by simp)
        dsimp only
        rw [Function.update_of_ne hne]
        exact hdata n w hw
    | @last p rs' got b hin hbody hl hlen hp hfl =>
      have hv := hvalid p (hp.symm.subset (List.mem_cons_self ..))
      have hlabel := label_of_large hl
      refine ⟨replyOf (.part p.id b true), hpart p b true hv hlen,
        .completed hp rfl rfl (fun w hw => ?_) ⟨⟨⟨pipe.high, gs, _⟩, hhigh, rfl,
          fun n w hw => ?_, hfl⟩,
          fun q hq => hvalid q (hp.symm.subset (List.mem_cons_of_mem _ hq))⟩⟩
      · have hsome : w.resultData = some (pieces p.body.length got) := by
          rw [hdata p.id w hw, hin]
          rfl
        have hconcat : concat (pieces p.body.length got ++ [.data b]) = some p.body := by
          have h := concat_pieces (show (got ++ [b]).flatten.length = p.body.length by rw [hbody])
          rw [hbody] at h
          simpa [pieces] using h
        simp [resultOf, replyOf, hsome, hconcat, hlabel]
      · obtain ⟨hne, hw⟩ := Table.get_of_get_del hw
        dsimp only
        rw [Function.update_of_ne hne]
        exact hdata n w hw

end LsServer.Cluster.Call
