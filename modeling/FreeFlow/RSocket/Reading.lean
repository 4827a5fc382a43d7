import FreeFlow.RSocket.Invariant

/-!
# What waits at the receiver

The bytes that have come and were not read, as the application can see them: `rs_peek` shows them
and `rrecv` takes them. Both walk over the entries of `rmsg` with copies of the same variables.

* `Waiting` — which messages and which bytes the loops still have before them.
* `rsPeekLoop_eq`, `rrecvLoop_eq` — both loops give the next bytes of the receive buffer, as many as
  were asked for and are there.
* `Dir.waiting`, `Dir.rsPeek_eq` — in a connection these are the next bytes of the stream.

Source: `rsocket.c` `rrecv`, `rs_peek`.
-/

namespace FreeFlow.RSocket

open FreeFlow.Found

namespace Rsocket

/-- The entries of `rmsg` that were not read in full. Kind: D -/
def queued (rs : Rsocket) : List ℕ :=
  Ring.contents rs.rx.rmsg (rs.cfg.rqSize + 1) rs.rx.rmsgHead rs.rx.rmsgTail

/-- A loop that is at the entry `head` of `rmsg` and at `offset` in the receive buffer has the
messages `q` before it, whose bytes start at the position `pos` of the stream. Kind: D -/
structure Waiting (rs : Rsocket) (head offset : ℕ) (q : List ℕ) (pos : ℕ) : Prop where
  holds : Ring.Holds rs.rx.rmsg (rs.cfg.rqSize + 1) head rs.rx.rmsgTail q
  length_le : q.length ≤ rs.cfg.rqSize
  offset_le : offset ≤ rs.cfg.rbufSize
  offset_eq : offset % rs.cfg.rbufSize = pos % rs.cfg.rbufSize
  sum_le : q.sum ≤ rs.cfg.rbufSize

namespace Waiting

variable {rs : Rsocket} {head offset pos d : ℕ} {q : List ℕ}

/-- A loop is at the end when no message waits. Kind: L -/
lemma head_ne_tail_iff (h : Waiting rs head offset q pos) : head ≠ rs.rx.rmsgTail ↔ q ≠ [] :=
  h.holds.tail_ne_head_iff (Nat.lt_succ_of_le h.length_le)

/-- The next message, and its bytes. Kind: L -/
lemma pop (h : Waiting rs head offset (d :: q) pos) :
    rs.rx.rmsg head = d ∧
      (rs.copyRbuf offset d).1 = rs.rx.rbuf.cread rs.cfg.rbufSize pos d ∧
      Waiting rs (rs.nextRmsg head) (rs.copyRbuf offset d).2 q (pos + d) := by
  have hsum := h.sum_le
  have hlen := h.length_le
  rw [List.sum_cons] at hsum
  rw [List.length_cons] at hlen
  obtain ⟨hd, hpop⟩ := h.holds.pop
  obtain ⟨hbytes, hle, hmod⟩ := Dir.copyRbuf_spec rs offset pos d h.offset_le h.offset_eq (by omega)
  rw [← Dir.succ_mod_ring h.holds.tail_lt] at hpop
  exact ⟨hd, hbytes, hpop, by omega, hle, hmod, by omega⟩

/-- A part of the next message. Kind: L -/
lemma part (h : Waiting rs head offset (d :: q) pos) {n : ℕ} (hn : n < d) :
    (rs.copyRbuf offset n).1 = rs.rx.rbuf.cread rs.cfg.rbufSize pos n := by
  have hsum := h.sum_le
  rw [List.sum_cons] at hsum
  exact (Dir.copyRbuf_spec rs offset pos n h.offset_le h.offset_eq (by omega)).1

end Waiting

/-- **The loop of `rs_peek`**, with a round for every message. Kind: L -/
lemma rsPeekLoop_eq (rs : Rsocket) {q : List ℕ} {head offset pos fuel : ℕ}
    (h : Waiting rs head offset q pos) (hfuel : q.length < fuel) (left : ℕ) :
    rs.rsPeekLoop fuel head offset left =
      rs.rx.rbuf.cread rs.cfg.rbufSize pos (min left q.sum) := by
  induction q generalizing head offset pos left fuel with
  | nil =>
      obtain ⟨fuel, rfl⟩ := Nat.exists_eq_succ_of_ne_zero (Nat.ne_of_gt hfuel)
      rw [rsPeekLoop, if_neg fun hif => (h.head_ne_tail_iff.mp hif.2) rfl, List.sum_nil,
        Nat.min_zero, Mem.cread_zero]
  | cons d q ih =>
      obtain ⟨fuel, rfl⟩ := Nat.exists_eq_succ_of_ne_zero (Nat.ne_of_gt (Nat.zero_lt_of_lt hfuel))
      have hne := h.head_ne_tail_iff.mpr (List.cons_ne_nil d q)
      obtain ⟨hd, hbytes, hrest⟩ := h.pop
      rw [List.length_cons] at hfuel
      rw [rsPeekLoop, List.sum_cons]
      by_cases hleft : left = 0
      · rw [if_neg fun hif => hif.1 hleft, hleft, Nat.zero_min, Mem.cread_zero]
      rw [if_pos ⟨hleft, hne⟩]
      simp only [hd]
      by_cases hpart : left < d
      · -- nothing is left to copy, so the loop ends in the next round
        have hend : ∀ fuel head offset, rs.rsPeekLoop fuel head offset 0 = [] := by
          intro fuel head offset
          cases fuel <;> simp [rsPeekLoop]
        rw [if_pos hpart, if_pos hpart, Nat.sub_self, hend, List.append_nil, h.part hpart,
          Nat.min_eq_left (by omega)]
      · rw [if_neg hpart, if_neg hpart, hbytes, ih hrest (by omega) (left - d), ← Mem.cread_add]
        congr 1
        omega

/-- What a round of `rrecv` leaves of the messages that wait. Kind: L -/
lemma Waiting.rrecvIter {rs : Rsocket} {pos d left : ℕ} {q : List ℕ}
    (h : Waiting rs rs.rx.rmsgHead rs.rx.rbufOffset (d :: q) pos) (hleft : ¬ left < d) :
    (rs.rrecvIter left).2 = rs.rx.rbuf.cread rs.cfg.rbufSize pos d ∧
      Waiting (rs.rrecvIter left).1 (rs.rrecvIter left).1.rx.rmsgHead
        (rs.rrecvIter left).1.rx.rbufOffset q (pos + d) := by
  obtain ⟨hd, hbytes, hrest⟩ := h.pop
  rw [Dir.rrecvIter_of_not_lt (hd.symm ▸ hleft), hd]
  exact ⟨hbytes, { hrest with }⟩

/-- **The loop of `rrecv`**, with a round for every message. Kind: L -/
lemma rrecvLoop_eq {rs : Rsocket} {q : List ℕ} {pos left fuel : ℕ}
    (h : Waiting rs rs.rx.rmsgHead rs.rx.rbufOffset q pos) (hfuel : q.length < fuel) :
    (rrecvLoop fuel rs left).2 = rs.rx.rbuf.cread rs.cfg.rbufSize pos (min left q.sum) := by
  induction q generalizing rs pos left fuel with
  | nil =>
      obtain ⟨fuel, rfl⟩ := Nat.exists_eq_succ_of_ne_zero (Nat.ne_of_gt hfuel)
      rw [rrecvLoop, if_neg fun hif => (h.head_ne_tail_iff.mp hif.2) rfl, List.sum_nil,
        Nat.min_zero, Mem.cread_zero]
  | cons d q ih =>
      obtain ⟨fuel, rfl⟩ := Nat.exists_eq_succ_of_ne_zero (Nat.ne_of_gt (Nat.zero_lt_of_lt hfuel))
      have hne := h.head_ne_tail_iff.mpr (List.cons_ne_nil d q)
      obtain ⟨hd, -, -⟩ := h.pop
      rw [List.length_cons] at hfuel
      rw [rrecvLoop, List.sum_cons]
      by_cases hleft : left = 0
      · rw [if_neg fun hif => hif.1 hleft, hleft, Nat.zero_min, Mem.cread_zero]
      rw [if_pos ⟨hleft, hne⟩]
      by_cases hpart : left < d
      · have hend : ∀ fuel rs, (rrecvLoop fuel rs 0).2 = [] := by
          intro fuel rs
          cases fuel <;> simp [rrecvLoop]
        have hbytes := h.part hpart
        simp only [Dir.rrecvIter_of_lt (hd.symm ▸ hpart), hbytes, Mem.length_cread, Nat.sub_self,
          hend, List.append_nil]
        rw [Nat.min_eq_left (by omega)]
      · obtain ⟨hbytes, hrest⟩ := h.rrecvIter hpart
        have hrbuf : (rs.rrecvIter left).1.rx.rbuf = rs.rx.rbuf := by
          rw [Dir.rrecvIter_of_not_lt (hd.symm ▸ hpart)]
        have hcfg : (rs.rrecvIter left).1.cfg = rs.cfg := rfl
        simp only [hbytes, Mem.length_cread]
        rw [ih hrest (by omega), hrbuf, hcfg, ← Mem.cread_add]
        congr 1
        omega

end Rsocket

namespace Dir

variable {w : WriterView} {rs : Rsocket} {sent got : List UInt8} {closed : Option ℕ} {G : Ghost}

/-- What waits at the receiver of a direction. Kind: L -/
lemma waiting (h : Dir w rs.reader sent got closed G) :
    rs.Waiting rs.rx.rmsgHead rs.rx.rbufOffset G.queue got.length where
  holds := h.reader.holds
  length_le := by
    have hle : G.queue.length + (G.posted.cnt - G.polled.cnt) + G.polled.io ≤ rs.cfg.rqSize :=
      h.queue_le
    omega
  offset_le := h.reader.offset_le
  offset_eq := h.reader.offset_eq
  sum_le := by
    obtain ⟨-, hpolled, hplaced, hb₁, hb₂, hb₃⟩ := h.bounds
    have hsum := h.reader.queue_sum
    have hb : G.given.halves * rs.cfg.half ≤ got.length + rs.cfg.rbufSize := hb₃
    have hb' : sent.length ≤ G.given.halves * rs.cfg.half := hb₁.trans hb₂
    omega

/-- The entries of `rmsg` are the queue of the direction. Kind: L -/
lemma queued_eq (h : Dir w rs.reader sent got closed G) : rs.queued = G.queue :=
  h.waiting.holds.contents_eq (Nat.lt_succ_of_le h.waiting.length_le)

/-- **What `rs_peek` shows** are the next bytes of the stream. Kind: L -/
lemma rsPeek_eq (h : Dir w rs.reader sent got closed G) (len : ℕ) :
    rs.rsPeek len = (sent.drop got.length).take (min len G.queue.sum) := by
  have hsum := h.reader.queue_sum
  have hplaced := h.polled_le.pos
  rw [Rsocket.rsPeek, Rsocket.rsPeekLoop_eq rs h.waiting (Nat.lt_succ_of_le h.waiting.length_le)]
  exact (h.bytes_split (n := min len G.queue.sum) (by omega)).1

end Dir

end FreeFlow.RSocket
