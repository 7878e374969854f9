import LsServer.GameGate.Auth

/-!
# Requests of the gate (GameGate.lua)

`do_request` up to its yield is `doRequest`, the rest of it after `request_handler` has ended is
`resume`. Both end in `finish` when the response is ready: the response goes to the connection
the entry names, and `retireResponse` may drop old entries. Their third component is `false` when
the coroutine raised; `settle` is the rest of `request`, which closes the connection then.

Source: GameGate.lua, `retire_response` 205-224, `do_request` 227-282, `request` 284-294.

* A packet of less than four bytes has no session, and `string.unpack` raises.
* The session is a number of 32 bits, the content is what stands in front of it.
* `doRequest` finds no entry (`invokeHandler`), a conflict, an entry of this version that is
  complete and is dropped, or a resend (`redirect`, `resend`).
* `resume` puts the status byte and the session behind the result (`responseBody`).
  `string.pack('>s2', ..)` raises for more than 65535 bytes; then the entry stays as it is.
* `stamp` writes version and index at the end of the handler, from the user as it is then.
* `retireLoop` goes over the cache in the order of the table. An entry with a return connection is
  not complete, and not touched.

`release` is `p[1] = nil`, after the response was sent or not. `connection[fd]` decides about
sending; `socketdriver.send` to a socket that is gone does nothing.

Results: `retireLoop_entries`, `retireLoop_response` and their like say what the loop reads and
writes.
-/

namespace LsServer.GameGate

open LsServer.Lib LsServer.Lua

/-- How `pcall(request_handler, u.username, message)` ends. -/
inductive HandlerResult
  | ok (result : Option Bytes)
  | error (message : Bytes)
  deriving DecidableEq

/-- The response without its size: the body, the status byte, the session
(`string.pack(">BI4", ok, session)`). -/
def responseBody (r : HandlerResult) (session : Nat) : Bytes :=
  match r with
  | .ok result => result.getD [] ++ 1 :: packBE 4 session
  | .error _ => 0 :: packBE 4 session

/-- `p[2]`; `none` when `string.pack(">s2", result)` raises. -/
def responseFrame (r : HandlerResult) (session : Nat) : Option Bytes :=
  packS2 (responseBody r session)

/-! ## Expired responses -/

/-- The variables of the loop of `retire_response`. -/
structure Retire where
  response : Table Nat EntryId
  entries : Heap Entry
  max : Nat

/-- The loop of `retire_response` over the pairs `(k, p)`; `false` when a comparison with `nil`
raises. -/
def retireLoop (expired_number : Nat) : List (Nat × EntryId) → Retire → Retire × Bool
  | [], r => (r, true)
  | (k, i) :: ps, r =>
    let p := r.entries.cell i
    match p.fd with
    | some _ => retireLoop expired_number ps r
    | none =>
      match p.index with
      | none => (r, false)
      | some index =>
        if index < expired_number then
          retireLoop expired_number ps { r with response := r.response.del k }
        else
          retireLoop expired_number ps { r with
            entries := r.entries.set i { p with index := some (index - expired_number) }
            max := max r.max (index - expired_number) }

/-- `retire_response`. -/
def retireResponse (c : Conf) (g : Gate) (u : UserId) : Gate × Bool :=
  let r := g.users.cell u
  if c.expired_number * 2 ≤ r.index then
    let (l, ok) := retireLoop c.expired_number r.response.entries ⟨r.response, g.entries, 0⟩
    ({ g with
        users := g.users.set u { r with
          response := l.response
          index := if ok then l.max + 1 else r.index }
        entries := l.entries }, ok)
  else (g, true)

/-! ## Serving a request -/

/-- `u.index = u.index + 1` and `p[1] = nil`. -/
def release (g : Gate) (u : UserId) (i : EntryId) : Gate :=
  let r := g.users.cell u
  { g with
    users := g.users.set u { r with index := r.index + 1 }
    entries := g.entries.set i { g.entries.cell i with fd := none } }

/-- The end of `do_request`: the response `p[2]` goes to the connection `p[1]`. -/
def finish (c : Conf) (g : Gate) (u : UserId) (i : EntryId) : Gate × List Act × Bool :=
  let p := g.entries.cell i
  let acts :=
    match p.fd, p.response with
    | some fd, some frame => if (g.connection.get fd).isSome then [Act.send fd frame] else []
    | _, _ => []
  let (g, ok) := retireResponse c (release g u i) u
  (g, acts, ok)

/-- `u.response[session] = nil`. -/
def dropEntry (g : Gate) (u : UserId) (session : Nat) : Gate :=
  let r := g.users.cell u
  { g with users := g.users.set u { r with response := r.response.del session } }

/-- The branch without an entry, up to the call of `request_handler`. -/
def invokeHandler (g : Gate) (fd : Fd) (u : UserId) (session : Nat) (message : Bytes) :
    Gate × List Act × Bool :=
  let r := g.users.cell u
  ({ g with
      entries := g.entries.alloc ⟨some fd, none, none, none⟩
      users := g.users.set u { r with response := r.response.set session g.entries.next }
      tasks := g.tasks.set g.nextTask ⟨fd, u, session, message, g.entries.next⟩
      nextTask := g.nextTask + 1 },
    [.invoke g.nextTask r.username message], true)

/-- The assignments of the branch with an entry. -/
def redirect (g : Gate) (fd : Fd) (u : UserId) (i : EntryId) : Gate :=
  let r := g.users.cell u
  { g with entries := g.entries.set i { g.entries.cell i with
      fd := some fd
      version := some r.version
      index := some r.index } }

/-- The branch with an entry: it is stamped anew and its response sent again. -/
def resend (c : Conf) (g : Gate) (fd : Fd) (u : UserId) (i : EntryId) : Gate × List Act × Bool :=
  -- already request, but response is not ready
  if (g.entries.cell i).response = none then (redirect g fd u i, [], true)
  else finish c (redirect g fd u i) u i

/-- The session: the last four bytes of a request. -/
def sessionOf (data : Bytes) : Nat := unpackBE (data.drop (data.length - 4))

/-- The content of a request, `message:sub(1,-5)`. -/
def contentOf (data : Bytes) : Bytes := data.take (data.length - 4)

/-- `do_request` up to its yield. -/
def doRequest (c : Conf) (g : Gate) (fd : Fd) (data : Bytes) : Gate × List Act × Bool :=
  match g.connection.get fd with
  -- invalid fd
  | none => (g, [], false)
  | some u =>
    if data.length < 4 then (g, [], false)
    else
      let session := sessionOf data
      match (g.users.cell u).response.get session with
      | none => invokeHandler g fd u session (contentOf data)
      | some i =>
        if (g.entries.cell i).version = some (g.users.cell u).version then
          -- Conflict session
          if (g.entries.cell i).response = none then (dropEntry g u session, [], false)
          else invokeHandler (dropEntry g u session) fd u session (contentOf data)
        else resend c g fd u i

/-- The assignments after `request_handler` has ended. -/
def stamp (g : Gate) (t : Task) (frame : Bytes) : Gate :=
  let r := g.users.cell t.user
  { g with entries := g.entries.set t.entry { g.entries.cell t.entry with
      response := some frame
      version := some r.version
      index := some r.index } }

/-- `do_request` after its yield. -/
def resume (c : Conf) (g : Gate) (t : Task) (r : HandlerResult) : Gate × List Act × Bool :=
  match responseFrame r t.session with
  | none => (g, [], false)
  | some frame => finish c (stamp g t frame) t.user t.entry

/-- The end of `request`: a connection whose request raised is closed. -/
def settle (fd : Fd) (x : Gate × List Act × Bool) : Gate × List Act :=
  if x.2.2 then (x.1, x.2.1)
  else if (x.1.connection.get fd).isSome then
    let (g, acts) := closeclient x.1 fd
    (g, x.2.1 ++ acts)
  else (x.1, x.2.1)

/-- `request`. -/
def request (c : Conf) (g : Gate) (fd : Fd) (data : Bytes) : Gate × List Act :=
  settle fd (doRequest c g fd data)

/-! ## The loop of `retire_response` -/

section retireLoop

variable {n : Nat} {ps : List (Nat × EntryId)} {r : Retire}

/-- The loop only deletes. -/
theorem retireLoop_response {s : Nat} {i : EntryId}
    (h : (retireLoop n ps r).1.response.get s = some i) : r.response.get s = some i := by
  induction ps generalizing r with
  | nil => exact h
  | cons p ps ih =>
    simp only [retireLoop] at h
    split at h
    · exact ih h
    · split at h
      · exact h
      · split at h
        · exact (Table.get_of_get_del (ih h)).2
        · have := ih h
          exact this

/-- The loop writes no field of an entry but `index`. -/
theorem retireLoop_entries (i : EntryId) :
    ∃ index, (retireLoop n ps r).1.entries.cell i =
      { r.entries.cell i with index := index } := by
  induction ps generalizing r with
  | nil => exact ⟨_, rfl⟩
  | cons p ps ih =>
    simp only [retireLoop]
    split
    · exact ih
    · split
      · exact ⟨_, rfl⟩
      · split
        · exact ih
        · rename_i m hm hlt
          obtain ⟨index, h⟩ := ih (r := { r with
            entries := r.entries.set p.2 { r.entries.cell p.2 with index := some (m - n) }
            max := max r.max (m - n) })
          rw [h]
          by_cases hi : i = p.2
          · subst hi
            exact ⟨index, by simp⟩
          · exact ⟨index, by rw [Heap.cell_set_ne hi]⟩

theorem retireLoop_next : (retireLoop n ps r).1.entries.next = r.entries.next := by
  induction ps generalizing r with
  | nil => rfl
  | cons p ps ih =>
    simp only [retireLoop]
    split
    · exact ih
    · split
      · rfl
      · split
        · exact ih
        · exact ih

/-- The loop leaves a session it does not visit. -/
theorem retireLoop_notMem {s : Nat} (hs : s ∉ ps.map Prod.fst) :
    (retireLoop n ps r).1.response.get s = r.response.get s := by
  induction ps generalizing r with
  | nil => rfl
  | cons p ps ih =>
    simp only [List.map_cons, List.mem_cons, not_or] at hs
    simp only [retireLoop]
    split
    · exact ih hs.2
    · split
      · rfl
      · split
        · rw [ih hs.2]
          exact Table.get_del_ne hs.1
        · exact ih hs.2

/-- **The loop keeps an entry in use**, and a complete one whose index has not expired. -/
theorem retireLoop_keeps {s : Nat} {i : EntryId} (hnd : (ps.map Prod.fst).Nodup)
    (huniq : ∀ p ∈ ps, p.2 = i → p.1 = s)
    (hs : ∀ p ∈ ps, p.1 = s → p.2 = i)
    (hi : (r.entries.cell i).fd ≠ none ∨ ∃ m, (r.entries.cell i).index = some m ∧ n ≤ m) :
    (retireLoop n ps r).1.response.get s = r.response.get s := by
  induction ps generalizing r with
  | nil => rfl
  | cons p ps ih =>
    obtain ⟨k, j⟩ := p
    rw [List.map_cons, List.nodup_cons] at hnd
    by_cases hk : k = s
    · subst hk
      obtain rfl : j = i := hs (k, j) List.mem_cons_self rfl
      simp only [retireLoop]
      split
      · exact retireLoop_notMem hnd.1
      · rename_i hfd
        obtain ⟨m, hm, hle⟩ := hi.resolve_left (not_not.mpr hfd)
        rw [hm]
        simp only [if_neg (not_lt.mpr hle)]
        exact retireLoop_notMem hnd.1
    · have hji : i ≠ j := fun h => hk (huniq (k, j) List.mem_cons_self h.symm)
      have huniq' : ∀ p ∈ ps, p.2 = i → p.1 = s := fun p hp => huniq p (by simp [hp])
      have hs' : ∀ p ∈ ps, p.1 = s → p.2 = i := fun p hp => hs p (by simp [hp])
      simp only [retireLoop]
      split
      · exact ih hnd.2 huniq' hs' hi
      · split
        · rfl
        · split
          · rw [ih (r := { r with response := r.response.del k }) hnd.2 huniq' hs' hi]
            exact Table.get_del_ne (Ne.symm hk)
          · rw [ih (r := { r with entries := _, max := _ }) hnd.2 huniq' hs'
              (by simpa only [Heap.cell_set_ne hji] using hi)]

end retireLoop

end LsServer.GameGate
