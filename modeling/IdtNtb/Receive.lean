/-
  Bytes from the server, and the messages they make.

  After realize the character device calls `ivshmem_read` with a few bytes at a
  time, which are collected in `msg_buf`; during realize `ivshmem_recv_msg` reads
  until a message is complete.  The connection is the list of what the coming
  reads return (`ReadResult`); when it is used up, it is at its end.

  * `messagesOf` are the messages of a stream, the signed numbers that its groups
    of eight bytes mean, and `le64ToCpu_eq` says that the code reads them so;
  * `ivshmemReads_spec`: the chunks are put together to the messages of the
    stream, and the buffer never fills up between two calls;
  * `recvMsg_complete` and `recvMsg_short`: one synchronous receive takes the
    next eight bytes, if there are so many;
  * `receivers_agree`: both ways give the same messages.
-/
import IdtNtb.Lib.Bytes
import IdtNtb.Connects

namespace IdtNtb

open Runs Bytes

variable {x : Vm} {c : Ctx x}

/-- `le64_to_cpu` of the bytes of a message, as a signed number. -/
def le64ToCpu (bytes : List (BitVec 8)) : ℤ := (BitVec.ofNat 64 (value bytes)).toInt

/-- What eight bytes mean: digits to the base 256, the lowest first, in two's complement. -/
def signedValue (bytes : List (BitVec 8)) : ℤ :=
  let v : ℕ := Nat.ofDigits 256 (bytes.map BitVec.toNat)
  if v < 0x8000000000000000 then v else v - 0x10000000000000000

/-- The messages of a stream of bytes: the numbers that its complete groups of eight mean. -/
def messagesOf (stream : List (BitVec 8)) : List ℤ := (groups 8 stream).map signedValue

/-- The code reads a message as what its bytes mean. -/
theorem le64ToCpu_eq {bytes : List (BitVec 8)} (h : bytes.length = 8) :
    le64ToCpu bytes = signedValue bytes := by
  have hlt : value bytes < 256 ^ 8 := h ▸ value_lt bytes
  have hmod : value bytes % 2 ^ 64 = value bytes := Nat.mod_eq_of_lt hlt
  have hvalue : Nat.ofDigits 256 (bytes.map BitVec.toNat) = value bytes := rfl
  unfold le64ToCpu signedValue
  dsimp only
  rw [BitVec.toInt_eq_toNat_cond, BitVec.toNat_ofNat, hmod, hvalue]
  by_cases hlow : value bytes < 0x8000000000000000
  · rw [if_pos hlow, if_pos (by omega)]
  · rw [if_neg hlow, if_neg (by omega)]
    rfl

/-! ## After realize -/

/-- `msg_buf`, which is never cleared, and how much of it is filled. -/
structure MsgBuf where
  msgBuf : List (BitVec 8)
  msgBufferedBytes : ℕ
  length : msgBuf.length = 8

namespace MsgBuf

/-- The buffer of a zeroed device. -/
def zero : MsgBuf := ⟨List.replicate 8 0, 0, rfl⟩

/-- The bytes that wait for the rest of their message. -/
def pending (b : MsgBuf) : List (BitVec 8) := b.msgBuf.take b.msgBufferedBytes

end MsgBuf

def ivshmemCanReceive (b : MsgBuf) : Except Fault ℕ :=
  if b.msgBufferedBytes < 8 then .ok (8 - b.msgBufferedBytes) else .error .assertion

/-- `ivshmem_read` up to the message that it hands to `process_msg`, if there is one. -/
def ivshmemRead (b : MsgBuf) (buf : List (BitVec 8)) : Except Fault (MsgBuf × Option ℤ) :=
  if h : b.msgBufferedBytes + buf.length ≤ 8 then
    let msgBuf := writeAt b.msgBuf b.msgBufferedBytes buf
    let hlen := (length_writeAt (b.length.symm ▸ h)).trans b.length
    let msgBufferedBytes := b.msgBufferedBytes + buf.length
    if msgBufferedBytes < 8 then .ok (⟨msgBuf, msgBufferedBytes, hlen⟩, none)
    else .ok (⟨msgBuf, 0, hlen⟩, some (le64ToCpu msgBuf))
  else .error .assertion

/-- The character device asks how much it may deliver, and delivers. -/
def ivshmemReads (b : MsgBuf) : List (List (BitVec 8)) → Except Fault (MsgBuf × List ℤ)
  | [] => .ok (b, [])
  | chunk :: chunks => do
    let _ ← ivshmemCanReceive b
    let (b, msg) ← ivshmemRead b chunk
    let (b, msgs) ← ivshmemReads b chunks
    pure (b, msg.toList ++ msgs)

/-- No chunk is longer than what `ivshmem_can_receive` returned for it. -/
def Respects (b : MsgBuf) : List (List (BitVec 8)) → Prop
  | [] => True
  | chunk :: chunks => (∀ room, ivshmemCanReceive b = .ok room → chunk.length ≤ room) ∧
    ∀ b' msg, ivshmemRead b chunk = .ok (b', msg) → Respects b' chunks

theorem messagesOf_of_lt {stream : List (BitVec 8)} (h : stream.length < 8) : messagesOf stream = [] := by
  unfold messagesOf
  rw [groups_of_lt h, List.map_nil]

theorem messagesOf_append {bytes stream : List (BitVec 8)} (h : bytes.length = 8) :
    messagesOf (bytes ++ stream) = le64ToCpu bytes :: messagesOf stream := by
  unfold messagesOf
  rw [groups_append (by decide) h, List.map_cons, le64ToCpu_eq h]

theorem MsgBuf.length_pending {b : MsgBuf} (h : b.msgBufferedBytes < 8) :
    b.pending.length = b.msgBufferedBytes := by
  unfold pending
  rw [List.length_take, b.length]
  omega

/-- **One call** adds its chunk to the bytes that wait, and hands on the message if it is
    complete. -/
theorem ivshmemRead_spec {b : MsgBuf} {chunk : List (BitVec 8)} (hb : b.msgBufferedBytes < 8)
    (hlen : chunk.length ≤ 8 - b.msgBufferedBytes) : ∃ b' msg,
      ivshmemRead b chunk = .ok (b', msg) ∧ b'.msgBufferedBytes < 8 ∧
      ∀ stream, messagesOf (b.pending ++ (chunk ++ stream)) =
        msg.toList ++ messagesOf (b'.pending ++ stream) := by
  have hfit : b.msgBufferedBytes + chunk.length ≤ 8 := by omega
  have htake : (writeAt b.msgBuf b.msgBufferedBytes chunk).take (b.msgBufferedBytes + chunk.length) =
      b.pending ++ chunk := take_writeAt (by rw [b.length]; omega)
  unfold ivshmemRead
  rw [dif_pos hfit]
  dsimp only
  by_cases hmore : b.msgBufferedBytes + chunk.length < 8
  · rw [if_pos hmore]
    refine ⟨_, none, rfl, hmore, fun stream => ?_⟩
    rw [← List.append_assoc, ← htake]
    rfl
  · -- the buffer is full, and all of it belongs to the message
    have hfull : b.msgBufferedBytes + chunk.length = 8 := by omega
    have hmsg : writeAt b.msgBuf b.msgBufferedBytes chunk = b.pending ++ chunk := by
      rw [← htake, hfull, List.take_of_length_le]
      rw [length_writeAt (b.length.symm ▸ hfit), b.length]
    rw [if_neg hmore]
    refine ⟨_, some _, rfl, Nat.zero_lt_succ 7, fun stream => ?_⟩
    have hlen8 : (b.pending ++ chunk).length = 8 := by
      rw [List.length_append, MsgBuf.length_pending hb, hfull]
    rw [← List.append_assoc, messagesOf_append hlen8]
    exact congrArg (fun bytes => le64ToCpu bytes :: messagesOf stream) hmsg.symm

/-- **Any chunks that respect the room** are put together to the messages of the stream. -/
theorem ivshmemReads_spec {b : MsgBuf} {chunks : List (List (BitVec 8))}
    (hb : b.msgBufferedBytes < 8) (hr : Respects b chunks) : ∃ b',
      ivshmemReads b chunks = .ok (b', messagesOf (b.pending ++ chunks.flatten)) ∧
      b'.msgBufferedBytes < 8 := by
  induction chunks generalizing b with
  | nil =>
    refine ⟨b, ?_, hb⟩
    rw [List.flatten_nil, List.append_nil, messagesOf_of_lt (by rw [b.length_pending hb]; exact hb)]
    rfl
  | cons chunk chunks ih =>
    have hroom : ivshmemCanReceive b = .ok (8 - b.msgBufferedBytes) := if_pos hb
    obtain ⟨hlen, hrest⟩ := hr
    obtain ⟨b₁, msg, hread, hb₁, hmsgs⟩ := ivshmemRead_spec hb (hlen _ hroom)
    obtain ⟨b', hreads, hb'⟩ := ih hb₁ (hrest b₁ msg hread)
    refine ⟨b', ?_, hb'⟩
    rw [List.flatten_cons, hmsgs, ivshmemReads, hroom]
    dsimp only [bind, Except.bind]
    rw [hread]
    dsimp only
    rw [hreads]
    rfl

/-- `ivshmem_read` with the rest of it: a message that is complete is handled, with the descriptor
    that came last. -/
def Ctx.read (c : Ctx x) (b : MsgBuf) (buf : List (BitVec 8)) (fd : Option Fd) (env : Env) :
    Except Fault (Ctx x × MsgBuf) := do
  match ← ivshmemRead b buf with
  | (b, none) => pure (c, b)
  | (b, some msg) => do
    let c ← c.receive (⟨msg, fd⟩, env)
    pure (c, b)

/-- Chunks, each with the descriptor that is there and what the calls out of the device answer. -/
def Ctx.reads (c : Ctx x) (b : MsgBuf) :
    List (List (BitVec 8) × Option Fd × Env) → Except Fault (Ctx x × MsgBuf)
  | [] => .ok (c, b)
  | (chunk, fd, env) :: l => do
    let _ ← ivshmemCanReceive b
    let (c, b) ← c.read b chunk fd env
    c.reads b l

/-- **What the device does with the chunks** is to handle the messages of the stream. -/
theorem reads_spec {b : MsgBuf} {l : List (List (BitVec 8) × Option Fd × Env)}
    (hb : b.msgBufferedBytes < 8) (hr : Respects b (l.map Prod.fst)) : ∃ handed : List (Msg × Env),
      handed.map (fun m => m.1.value) = messagesOf (b.pending ++ (l.map Prod.fst).flatten) ∧
      (c.reads b l).map Prod.fst = exec Ctx.receive c handed := by
  induction l generalizing b c with
  | nil =>
    refine ⟨[], ?_, rfl⟩
    have hnil : messagesOf (b.pending ++ []) = [] := by
      rw [List.append_nil]
      exact messagesOf_of_lt ((MsgBuf.length_pending hb).trans_lt hb)
    exact hnil.symm
  | cons e l ih =>
    obtain ⟨chunk, fd, env⟩ := e
    have hroom : ivshmemCanReceive b = .ok (8 - b.msgBufferedBytes) := if_pos hb
    obtain ⟨hlen, hrest⟩ := hr
    obtain ⟨b₁, msg, hread, hb₁, hmsgs⟩ := ivshmemRead_spec hb (hlen _ hroom)
    rw [List.map_cons, List.flatten_cons, hmsgs, Ctx.reads, hroom]
    unfold Ctx.read
    dsimp only [bind, Except.bind]
    rw [hread]
    cases msg with
    | none => exact ih hb₁ (hrest b₁ none hread)
    | some msg =>
      cases hst : c.receive (⟨msg, fd⟩, env) with
      | error f =>
        -- the messages that would follow
        obtain ⟨handed, hvals, -⟩ := ih (c := c) hb₁ (hrest b₁ (some msg) hread)
        refine ⟨(⟨msg, fd⟩, env) :: handed, ?_, ?_⟩
        · rw [List.map_cons, hvals]
          rfl
        · dsimp only
          rw [hst, exec, hst]
          rfl
      | ok c₁ =>
        obtain ⟨handed, hvals, hexec⟩ := ih (c := c₁) hb₁ (hrest b₁ (some msg) hread)
        refine ⟨(⟨msg, fd⟩, env) :: handed, ?_, ?_⟩
        · rw [List.map_cons, hvals]
          rfl
        · dsimp only
          rw [hst, exec, hst]
          exact hexec

/-! ## During realize -/

/-- What a read of the connection returns: some bytes, or a negative error. -/
inductive ReadResult where
  | bytes (l : List (BitVec 8))
  /-- `-EINTR` -/
  | eintr
  | error (errno : ℕ)

/-- `qemu_chr_fe_read_all` for `len` bytes.  What a piece has more than that stays for the next read,
    and behind the last piece the connection is at its end. -/
def qemuChrFeReadAll (len : ℕ) : List ReadResult → ReadResult × List ReadResult
  | [] => (.bytes [], [])
  | .bytes l :: conn =>
    if l.length ≤ len then (.bytes l, conn) else (.bytes (l.take len), .bytes (l.drop len) :: conn)
  | r :: conn => (r, conn)

/-- `ivshmem_recv_msg` in the loop, with `n` bytes of the message there.  It may go around no more
    than `fuel` times. -/
def ivshmemRecvMsg : ℕ → List (BitVec 8) → ℕ → List ReadResult →
    Option (Except ℕ ℤ × List ReadResult)
  | 0, _, _, _ => none
  | fuel + 1, msg, n, conn =>
    match qemuChrFeReadAll (8 - n) conn with
    | (.error errno, conn) => some (.error errno, conn)
    | (.eintr, conn) => ivshmemRecvMsg fuel msg n conn
    | (.bytes bytes, conn) =>
      let msg := writeAt msg n bytes
      let n := n + bytes.length
      if n < 8 then ivshmemRecvMsg fuel msg n conn else some (.ok (le64ToCpu msg), conn)

/-- The bytes that can be read before the connection fails or ends. -/
def received : List ReadResult → List (BitVec 8)
  | [] => []
  | .bytes l :: conn => l ++ received conn
  | .eintr :: conn => received conn
  | .error _ :: _ => []

/-- Some read fails. -/
def Fails (conn : List ReadResult) : Prop := ∃ errno, .error errno ∈ conn

variable {msg : List (BitVec 8)} {n fuel : ℕ} {conn : List ReadResult}

theorem fails_bytes {l : List (BitVec 8)} : Fails (.bytes l :: conn) ↔ Fails conn := by
  simp [Fails]

theorem fails_eintr : Fails (.eintr :: conn) ↔ Fails conn := by
  simp [Fails]

/-- **A message that is there is received**, and leaves what follows it. -/
theorem recvMsg_complete (hmsg : msg.length = 8) (hn : n < 8)
    (hlen : 8 - n ≤ (received conn).length) : ∃ fuel conn',
      ivshmemRecvMsg fuel msg n conn =
        some (.ok (le64ToCpu (msg.take n ++ (received conn).take (8 - n))), conn') ∧
      received conn' = (received conn).drop (8 - n) ∧ (Fails conn' ↔ Fails conn) := by
  induction conn generalizing msg n with
  | nil =>
    have hnil : (received []).length = 0 := rfl
    omega
  | cons r conn ih =>
    cases r with
    | error errno =>
      have hnil : (received (.error errno :: conn)).length = 0 := rfl
      omega
    | eintr =>
      obtain ⟨fuel, conn', hrec, hrest⟩ := ih hmsg hn hlen
      exact ⟨fuel + 1, conn', hrec, hrest.1, hrest.2.trans fails_eintr.symm⟩
    | bytes l =>
      have hrec : received (.bytes l :: conn) = l ++ received conn := rfl
      rw [hrec] at hlen ⊢
      by_cases hl : l.length ≤ 8 - n
      · have htake : (writeAt msg n l).take (n + l.length) = msg.take n ++ l :=
          take_writeAt (by omega)
        have hread : qemuChrFeReadAll (8 - n) (.bytes l :: conn) = (.bytes l, conn) := if_pos hl
        by_cases hmore : n + l.length < 8
        · have hlen' : (writeAt msg n l).length = 8 := (length_writeAt (by omega)).trans hmsg
          have hleft : 8 - n = l.length + (8 - (n + l.length)) := by omega
          rw [List.length_append] at hlen
          obtain ⟨fuel, conn', hloop, hconn, hfails⟩ := ih hlen' hmore (by omega)
          refine ⟨fuel + 1, conn', ?_, ?_, hfails.trans fails_bytes.symm⟩
          · rw [ivshmemRecvMsg, hread]
            dsimp only
            rw [if_pos hmore, hloop, htake, List.append_assoc, hleft, List.take_length_add_append]
          · rw [hconn, hleft, List.drop_length_add_append]
        · have hleft : 8 - n = l.length := by omega
          have hfull : writeAt msg n l = msg.take n ++ l := by
            have hlen8 : (writeAt msg n l).length = msg.length := length_writeAt (by omega)
            exact (List.take_of_length_le (by omega)).symm.trans htake
          refine ⟨1, conn, ?_, ?_, fails_bytes.symm⟩
          · rw [ivshmemRecvMsg, hread]
            dsimp only
            rw [if_neg hmore, hfull, hleft, List.take_left]
          · rw [hleft, List.drop_left]
      · -- the piece reaches into the next message
        have hlt : 8 - n ≤ l.length := by omega
        have hcut : (l.take (8 - n)).length = 8 - n := by
          rw [List.length_take]
          omega
        have hread : qemuChrFeReadAll (8 - n) (.bytes l :: conn) =
            (.bytes (l.take (8 - n)), .bytes (l.drop (8 - n)) :: conn) := if_neg hl
        have htake : (writeAt msg n (l.take (8 - n))).take (n + (l.take (8 - n)).length) =
            msg.take n ++ l.take (8 - n) := take_writeAt (by omega)
        have hfull : writeAt msg n (l.take (8 - n)) = msg.take n ++ l.take (8 - n) := by
          have hlen8 : (writeAt msg n (l.take (8 - n))).length = msg.length :=
            length_writeAt (by omega)
          exact (List.take_of_length_le (by omega)).symm.trans htake
        refine ⟨1, .bytes (l.drop (8 - n)) :: conn, ?_, ?_, fails_bytes.trans fails_bytes.symm⟩
        · rw [ivshmemRecvMsg, hread]
          dsimp only
          rw [if_neg (by omega), hfull, List.take_append_of_le_length hlt]
        · rw [List.drop_append_of_le_length hlt]
          rfl

/-- Too few bytes, and no failure: **the loop does not end**. -/
theorem recvMsg_short (hlen : (received conn).length < 8 - n) (hf : ¬ Fails conn) :
    ivshmemRecvMsg fuel msg n conn = none := by
  induction fuel generalizing msg n conn with
  | zero => rfl
  | succ fuel ih =>
    cases conn with
    | nil =>
      -- the end of the connection counts as a read of no bytes, again and again
      have hnone : (received []).length = 0 := rfl
      rw [ivshmemRecvMsg, qemuChrFeReadAll]
      dsimp only
      rw [if_pos (by rw [List.length_nil]; omega)]
      exact ih hlen hf
    | cons r conn =>
      cases r with
      | error errno => exact absurd ⟨errno, List.mem_cons_self⟩ hf
      | eintr =>
        have hrest : ivshmemRecvMsg fuel msg n conn = none := ih hlen fun h => hf (fails_eintr.2 h)
        exact hrest
      | bytes l =>
        have hrec : received (.bytes l :: conn) = l ++ received conn := rfl
        rw [hrec, List.length_append] at hlen
        have hread : qemuChrFeReadAll (8 - n) (.bytes l :: conn) = (.bytes l, conn) :=
          if_pos (by omega)
        rw [ivshmemRecvMsg, hread]
        dsimp only
        rw [if_pos (by omega)]
        exact ih (by omega) fun h => hf (fails_bytes.2 h)

/-- Too few bytes in front of a failure: the error is returned. -/
theorem recvMsg_fails (hlen : (received conn).length < 8 - n) (hf : Fails conn) :
    ∃ fuel errno conn', ivshmemRecvMsg fuel msg n conn = some (.error errno, conn') := by
  induction conn generalizing msg n with
  | nil =>
    obtain ⟨errno, h⟩ := hf
    cases h
  | cons r conn ih =>
    cases r with
    | error errno => exact ⟨1, errno, conn, rfl⟩
    | eintr =>
      have hloop : ∃ fuel errno conn', ivshmemRecvMsg fuel msg n conn = some (.error errno, conn') :=
        ih hlen (fails_eintr.1 hf)
      obtain ⟨fuel, errno, conn', hloop⟩ := hloop
      exact ⟨fuel + 1, errno, conn', hloop⟩
    | bytes l =>
      have hrec : received (.bytes l :: conn) = l ++ received conn := rfl
      rw [hrec, List.length_append] at hlen
      have hread : qemuChrFeReadAll (8 - n) (.bytes l :: conn) = (.bytes l, conn) :=
        if_pos (by omega)
      have hloop : ∃ fuel errno conn',
          ivshmemRecvMsg fuel (writeAt msg n l) (n + l.length) conn = some (.error errno, conn') :=
        ih (by omega) (fails_bytes.1 hf)
      obtain ⟨fuel, errno, conn', hloop⟩ := hloop
      refine ⟨fuel + 1, errno, conn', ?_⟩
      rw [ivshmemRecvMsg, hread]
      dsimp only
      rw [if_pos (by omega), hloop]

/-- A loop that has ended needs no more fuel. -/
theorem recvMsg_mono {r : Except ℕ ℤ × List ReadResult} {fuel' : ℕ} (hle : fuel ≤ fuel')
    (h : ivshmemRecvMsg fuel msg n conn = some r) : ivshmemRecvMsg fuel' msg n conn = some r := by
  induction fuel generalizing fuel' msg n conn with
  | zero => cases h
  | succ fuel ih =>
    obtain ⟨fuel', rfl⟩ := Nat.exists_eq_add_of_le hle
    rw [Nat.add_right_comm]
    unfold ivshmemRecvMsg at h ⊢
    rcases hread : qemuChrFeReadAll (8 - n) conn with ⟨_ | _ | _, conn₁⟩
    · simp only [hread] at h ⊢
      split_ifs at h ⊢
      · exact ih (by omega) h
      · exact h
    · simp only [hread] at h ⊢
      exact ih (by omega) h
    · simp only [hread] at h ⊢
      exact h

/-- The loop ends in one way. -/
theorem recvMsg_det {r r' : Except ℕ ℤ × List ReadResult} {fuel' : ℕ}
    (h : ivshmemRecvMsg fuel msg n conn = some r)
    (h' : ivshmemRecvMsg fuel' msg n conn = some r') : r = r' := by
  have hmax := recvMsg_mono (Nat.le_max_left fuel fuel') h
  rw [recvMsg_mono (Nat.le_max_right fuel fuel') h', Option.some_inj] at hmax
  exact hmax.symm

/-- A message is received, one after the other, in a buffer that holds anything before. -/
inductive RecvMsgs : List ReadResult → List ℤ → List ReadResult → Prop where
  | nil (conn : List ReadResult) : RecvMsgs conn [] conn
  | cons {conn conn₁ conn' : List ReadResult} {v : ℤ} {vs : List ℤ} (fuel : ℕ)
      {msg : List (BitVec 8)} (hmsg : msg.length = 8)
      (hrecv : ivshmemRecvMsg fuel msg 0 conn = some (.ok v, conn₁)) (hrest : RecvMsgs conn₁ vs conn') :
      RecvMsgs conn (v :: vs) conn'

/-- The message that a synchronous receive returns is the first one of the stream. -/
theorem recvMsg_head {v : ℤ} {conn' : List ReadResult} (hmsg : msg.length = 8)
    (h : ivshmemRecvMsg fuel msg 0 conn = some (.ok v, conn')) :
    messagesOf (received conn) = v :: messagesOf (received conn') ∧ (Fails conn' ↔ Fails conn) := by
  by_cases hlen : (received conn).length < 8
  · by_cases hf : Fails conn
    · have hloop : ∃ fuel errno conn', ivshmemRecvMsg fuel msg 0 conn = some (.error errno, conn') :=
        recvMsg_fails hlen hf
      obtain ⟨fuel', errno, conn₁, hloop⟩ := hloop
      cases recvMsg_det h hloop
    · rw [recvMsg_short hlen hf] at h
      cases h
  · have hlong : 8 - 0 ≤ (received conn).length := by omega
    obtain ⟨fuel', conn₁, hloop, hrest, hfails⟩ := recvMsg_complete hmsg (by decide) hlong
    cases recvMsg_det h hloop
    have hcut : ((received conn).take 8).length = 8 := by
      rw [List.length_take]
      omega
    have hsplit : messagesOf ((received conn).take 8 ++ (received conn).drop 8) =
        le64ToCpu ((received conn).take 8) :: messagesOf ((received conn).drop 8) :=
      messagesOf_append hcut
    rw [List.take_append_drop] at hsplit
    rw [hrest]
    exact ⟨hsplit, hfails⟩

/-- Every message of the stream is received. -/
theorem recvMsgs_all : ∃ conn', RecvMsgs conn (messagesOf (received conn)) conn' := by
  induction hn : (received conn).length using Nat.strong_induction_on generalizing conn with
  | _ k ih =>
    by_cases hlen : k < 8
    · rw [messagesOf_of_lt (hn ▸ hlen)]
      exact ⟨conn, .nil conn⟩
    · have hbuf : (List.replicate 8 (0 : BitVec 8)).length = 8 := List.length_replicate
      have hlong : 8 - 0 ≤ (received conn).length := by omega
      obtain ⟨fuel, conn₁, hloop, hrest, -⟩ := recvMsg_complete hbuf (by decide) hlong
      have hless : (received conn₁).length < k := by
        rw [hrest, List.length_drop]
        omega
      obtain ⟨conn', hmsgs⟩ := ih _ hless rfl
      rw [(recvMsg_head hbuf hloop).1]
      exact ⟨conn', .cons fuel hbuf hloop hmsgs⟩

/-- What is received is the beginning of the messages of the stream. -/
theorem recvMsgs_prefix {vs : List ℤ} {conn' : List ReadResult} (h : RecvMsgs conn vs conn') :
    messagesOf (received conn) = vs ++ messagesOf (received conn') := by
  induction h with
  | nil conn => rfl
  | cons fuel hmsg hrecv _ ih => rw [(recvMsg_head hmsg hrecv).1, ih, List.cons_append]

/-! ## Both receivers -/

/-- Fewer chunks respect the room, too. -/
theorem Respects.left {b : MsgBuf} {chunks rest : List (List (BitVec 8))}
    (h : Respects b (chunks ++ rest)) : Respects b chunks := by
  induction chunks generalizing b with
  | nil => trivial
  | cons chunk chunks ih => exact ⟨h.1, fun b' msg hread => ih (h.2 b' msg hread)⟩

/-- **Both receivers make the same messages of a stream**, and between two chunks the buffer has
    room. -/
theorem receivers_agree (stream : List (BitVec 8)) :
    (∀ (c : Ctx x) (l : List (List (BitVec 8) × Option Fd × Env)),
      Respects .zero (l.map Prod.fst) → (l.map Prod.fst).flatten = stream →
      (∀ chunks rest, l.map Prod.fst = chunks ++ rest → ∃ b,
        ivshmemReads .zero chunks = .ok (b, messagesOf chunks.flatten) ∧ b.msgBufferedBytes < 8) ∧
      ∃ handed : List (Msg × Env), handed.map (fun m => m.1.value) = messagesOf stream ∧
        (c.reads .zero l).map Prod.fst = exec Ctx.receive c handed) ∧
    ∀ conn : List ReadResult, received conn = stream →
      (∃ conn', RecvMsgs conn (messagesOf stream) conn') ∧
      ∀ vs conn', RecvMsgs conn vs conn' → vs <+: messagesOf stream := by
  refine ⟨fun c l hr hflat => ⟨fun chunks rest hl => ?_, ?_⟩, fun conn hconn => ⟨?_, fun vs conn' h => ?_⟩⟩
  · rw [hl] at hr
    exact ivshmemReads_spec (b := .zero) (by decide) hr.left
  · rw [← hflat]
    exact reads_spec (b := .zero) (by decide) hr
  · rw [← hconn]
    exact recvMsgs_all
  · rw [← hconn, recvMsgs_prefix h]
    exact List.prefix_append vs _

/-- One message and the first byte of another one, cut in two ways. -/
theorem receivers_agree_cut :
    (∃ b, ivshmemReads .zero [[1, 0, 0], [0, 0, 0, 0, 0], [255]] = .ok (b, [1]) ∧
      b.msgBufferedBytes < 8) ∧
    ∃ conn', RecvMsgs [.bytes [1, 0], .eintr, .bytes [0, 0, 0, 0, 0, 0, 255]] [1] conn' := by
  have h := receivers_agree (x := .vm1) [1, 0, 0, 0, 0, 0, 0, 0, 255]
  have hr : Respects .zero [[1, 0, 0], [0, 0, 0, 0, 0], [255]] := by
    refine ⟨fun _ h => ?_, fun _ _ h₁ => ⟨fun _ h => ?_, fun _ _ h₂ => ⟨fun _ h => ?_,
      fun _ _ _ => trivial⟩⟩⟩
    · cases h
      decide
    · cases h₁
      cases h
      decide
    · cases h₁
      cases h₂
      cases h
      decide
  exact ⟨(h.1 firstUp [([1, 0, 0], none, eventfdEnv), ([0, 0, 0, 0, 0], none, eventfdEnv),
    ([255], none, eventfdEnv)] hr rfl).1 _ [] rfl, (h.2 _ rfl).1⟩

end IdtNtb
