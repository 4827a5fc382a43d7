import FreeFlow.Found.ReadLoop
import FreeFlow.Wire.Framing

/-!
# How `request_router` waits for its response

After the request is written, `request_router` of either library takes the descriptor, if one is
due, and reads the response in a loop that goes by the number of bytes. A failed `read` ends the
loop. The end of the stream, which is what the client sees when the router has closed the
connection, is a `read` of zero bytes, and the loop goes round again, forever.

* `Reply`, `requestRouterReads` — the call from the written request on, for so many rounds of its
  loops.
* `Returns` — the call returns.
* `RepliesStall` — the reads of one of its loops stall.
* `returns_iff_not_stall` — for every request type and every sequence of results: the one holds
  exactly when the other does not.
* `length_of_reply` — a call that returns a response returns all of it.
* `not_returns_of_closed` — a connection closed before the last byte: the call never returns.
* `returns_fails_closed` — the connection is closed at once, in either library.

Source: `libibverbs-1.2.1mlnx1/src/freeflow.c` and `librdmacm-1.1.0mlnx/src/freeflow.c`
`request_router`, `recv_fd`.
-/

namespace FreeFlow.Wire

open FreeFlow.Found FreeFlow.Verbs FreeFlow.Router

/-- The results of the `read` calls, one after the other: `none` for -1, and no bytes at the end of
the stream. Kind: D -/
abbrev Results := ℕ → Option (List UInt8)

/-- How the call ends. Kind: D -/
inductive Reply
  /-- an unknown request type: nothing was sent -/
  | unsent
  /-- with the response -/
  | complete (rsp : List UInt8)
  /-- by `goto end`, with a message that the router is disconnected -/
  | disconnected
  /-- `recv_fd` has ended the process, with a message -/
  | exits

/-- The end of the loop over the response. Kind: D -/
def Reply.ofEnd : ReadEnd UInt8 × ℕ → Reply
  | (.complete rsp, _) => .complete rsp
  | (.failed, _) => .disconnected

/-- `rsp_hr.rsp_size`, an `int`. Kind: D -/
def rspSizeOf (hr : List UInt8) : ℤ := asInt (UInt32.ofNat (Mem.ofLE hr))

/-- The reads of a response: its size is known, or stands in a header before it. Kind: D -/
def readReply (r : Results) (rounds : ℕ) : ReplySize → Option Reply
  | .fixed n => (readLoop n r rounds 0 []).map .ofEnd
  | .counted => do
      let (hr, i) ← readLoop sizeofResponseHeader r rounds 0 []
      match hr with
      | .failed => some .disconnected
      | .complete hr => (readLoop (rspSizeOf hr) r rounds i []).map .ofEnd

/-- **`request_router`** behind the written request, for so many rounds of each of its loops.
`fdFails` says that `recvmsg` fails.
Source: `freeflow.c` of both libraries
Kind: D -/
def requestRouterReads (f : RdmaFunctionCall) (fdFails : Bool) (r : Results) (rounds : ℕ) :
    Option Reply :=
  match requestRouter f with
  | none => some .unsent
  | some c => if c.fd && fdFails then some .exits else readReply r rounds c.rsp

/-- The call returns. Kind: D -/
def Returns (f : RdmaFunctionCall) (fdFails : Bool) (r : Results) : Prop :=
  ∃ rounds, (requestRouterReads f fdFails r rounds).isSome

/-! ## When it returns -/

/-- **The reads of a response stall**: those of a response of known size, or those of the header, or
those of what the header announces. Kind: D -/
def RepliesStall (r : Results) : ReplySize → Prop
  | .fixed n => Stalls r 0 n
  | .counted => Stalls r 0 sizeofResponseHeader ∨
      ∃ rounds hr i, readLoop sizeofResponseHeader r rounds 0 [] = some (.complete hr, i) ∧
        Stalls r i (rspSizeOf hr)

/-- The reads of a response end exactly when they do not stall. Kind: L -/
lemma readReply_returns_iff (r : Results) (b : ReplySize) :
    (∃ rounds, (readReply r rounds b).isSome) ↔ ¬ RepliesStall r b := by
  cases b with
  | fixed n =>
      rw [RepliesStall, ← readLoop_returns_iff]
      simp only [readReply, Option.isSome_map]
  | counted =>
      rw [RepliesStall, not_or]
      constructor
      · rintro ⟨rounds, h⟩
        simp only [readReply, Option.bind_eq_bind] at h
        cases hread : readLoop sizeofResponseHeader r rounds 0 [] with
        | none => simp [hread] at h
        | some e =>
            refine ⟨(readLoop_returns_iff 0).1 ⟨rounds, by simp [hread]⟩, ?_⟩
            rintro ⟨rounds', hr, i, hread', hstalls⟩
            -- both runs of the first loop end alike
            have heq : e = (.complete hr, i) := by
              have hmax := readLoop_mono hread (le_max_left rounds rounds')
              rw [readLoop_mono hread' (le_max_right rounds rounds'), Option.some.injEq] at hmax
              exact hmax.symm
            rw [hread, heq] at h
            simp only [Option.bind_some, Option.isSome_map] at h
            exact (readLoop_returns_iff i).1 ⟨rounds, h⟩ hstalls
      · rintro ⟨hheader, hrest⟩
        obtain ⟨rounds, h⟩ := (readLoop_returns_iff 0).2 hheader
        obtain ⟨⟨e, i⟩, hread⟩ := Option.isSome_iff_exists.mp h
        cases e with
        | failed => exact ⟨rounds, by simp [readReply, hread]⟩
        | complete hr =>
            have hbody : ¬ Stalls r i (rspSizeOf hr) := fun hs => hrest ⟨rounds, hr, i, hread, hs⟩
            obtain ⟨rounds', h'⟩ := (readLoop_returns_iff i).2 hbody
            obtain ⟨e', hread'⟩ := Option.isSome_iff_exists.mp h'
            refine ⟨max rounds rounds', ?_⟩
            rw [readReply, readLoop_mono hread (le_max_left _ _)]
            simp only [Option.bind_eq_bind, Option.bind_some, Option.isSome_map]
            rw [readLoop_mono hread' (le_max_right _ _)]
            rfl

/-- **The reply loop.** For every request type and every sequence of results of the reads,
`request_router` returns exactly when it sends nothing, or fails to take a descriptor, or its reads
do not stall. Kind: P -/
theorem returns_iff_not_stall (f : RdmaFunctionCall) (fdFails : Bool) (r : Results) :
    Returns f fdFails r ↔
      ∀ c, requestRouter f = some c → (c.fd && fdFails) = true ∨ ¬ RepliesStall r c.rsp := by
  unfold Returns requestRouterReads
  cases hc : requestRouter f with
  | none => simp
  | some c =>
      simp only [Option.some.injEq, forall_eq']
      by_cases hfd : (c.fd && fdFails) = true
      · simp only [if_pos hfd]
        exact iff_of_true ⟨0, rfl⟩ (.inl hfd)
      · simp only [if_neg hfd]
        rw [readReply_returns_iff, or_iff_right hfd]

/-- A loop over a response that ends with it. Kind: L -/
lemma complete_of_ofEnd {e : Option (ReadEnd UInt8 × ℕ)} {rsp : List UInt8}
    (h : e.map Reply.ofEnd = some (.complete rsp)) : ∃ i, e = some (.complete rsp, i) := by
  obtain ⟨⟨_ | _, i⟩, he, heq⟩ := Option.map_eq_some_iff.mp h
  · cases heq
    exact ⟨i, he⟩
  · cases heq

/-- **A response is whole**: when the call returns one, it has as many bytes as its request type
says, or as its header announces. Kind: P -/
theorem length_of_reply {r : Results} {rounds : ℕ} {rsp : List UInt8} :
    (∀ n, readReply r rounds (.fixed n) = some (.complete rsp) → rsp.length = n) ∧
      (readReply r rounds .counted = some (.complete rsp) →
        ∃ hr i, readLoop sizeofResponseHeader r rounds 0 [] = some (.complete hr, i) ∧
          hr.length = sizeofResponseHeader ∧ rsp.length = (rspSizeOf hr).toNat) := by
  constructor
  · intro n h
    obtain ⟨i, hread⟩ := complete_of_ofEnd h
    simpa using length_of_complete hread (Nat.zero_le _)
  · intro h
    simp only [readReply, Option.bind_eq_bind, Option.bind_eq_some_iff] at h
    obtain ⟨⟨_ | _, i⟩, hread, h⟩ := h
    · obtain ⟨j, hbody⟩ := complete_of_ofEnd h
      exact ⟨_, i, hread, by simpa using length_of_complete hread (Nat.zero_le _),
        length_of_complete hbody (Nat.zero_le _)⟩
    · cases h

/-- **A connection that is closed too early.** When the router closes it after `m` reads that did
not fail and that brought less than the response, or less than its header, the call never returns.
Kind: P -/
theorem not_returns_of_closed {f : RdmaFunctionCall} {fdFails : Bool} {r : Results}
    {c : ClientCall} {m n : ℕ} (hc : requestRouter f = some c) (hfd : (c.fd && fdFails) = false)
    (hn : c.rsp = .fixed n ∨ c.rsp = .counted ∧ n = sizeofResponseHeader)
    (hread : ∀ j < m, r j ≠ none) (hclosed : ∀ j, r (m + j) = some [])
    (hshort : received r 0 m < n) : ¬ Returns f fdFails r := by
  have hstalls : Stalls r 0 n := by
    apply stalls_of_end (n := m)
    · simpa using hread
    · simpa using hclosed
    · exact_mod_cast hshort
  rintro ⟨rounds, h⟩
  rw [requestRouterReads, hc] at h
  simp only [hfd, Bool.false_eq_true, if_false] at h
  refine (readReply_returns_iff r c.rsp).1 ⟨rounds, h⟩ ?_
  rcases hn with hfixed | ⟨hcounted, rfl⟩
  · rw [hfixed]
    exact hstalls
  · rw [hcounted]
    exact .inl hstalls

/-- **The router is gone**: the first `read` and all later ones are at the end of the stream, and
neither library's call returns. Kind: C -/
theorem returns_fails_closed :
    ¬ Returns .ibvQueryDev false (fun _ => some []) ∧
      ¬ Returns .ibvPollCq false (fun _ => some []) ∧
      ¬ Returns .cmCreateId false (fun _ => some []) :=
  ⟨not_returns_of_closed (m := 0) rfl rfl (.inl rfl) (by simp) (fun _ => rfl) (by decide),
    not_returns_of_closed (m := 0) rfl rfl (.inr ⟨rfl, rfl⟩) (by simp) (fun _ => rfl) (by decide),
    not_returns_of_closed (m := 0) rfl rfl (.inl rfl) (by simp) (fun _ => rfl) (by decide)⟩

end FreeFlow.Wire
