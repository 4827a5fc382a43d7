import FreeFlow.Found.Run
import FreeFlow.Router.HandleRequest

/-!
# The reads of `HandleRequest`

A turn of the handler thread does one `read` for the header and one for the body, and takes what
they return for the whole message or for a reason to give up. The comparisons are not alike. With
the `sizeof` of a struct the result is compared as an unsigned number, so the -1 of a failed `read`
counts as more than enough, and the turn goes on with a header or a body that was never read. With
`body_size` it is compared as a signed number, but the posts then leave by `goto end`, not by
`goto kill`, and what is left of the body is read as the next header.

* `Received` — the whole header and the whole body were received in this turn.
* `Executes` — the turn gets behind its reads.
* `Link`, `linkStep` — a connection, turn by turn, with what an incomplete message left behind.
* `ReadsProper` — only complete requests are executed, and nothing that is left of an incomplete one
  passes for a header.
* `ReadsSound` — the condition on the results of the reads.
* `readsProper_iff_sound` — for every sequence of results: the one holds along the connection
  exactly when the other does.
* `linkStep_of_broken`, `turn_of_not_executes` — an incomplete message that is not executed has no
  effect, and then the connection is closed.
* `readsProper_fails` — each of the three ways.

Source: `ffrouter.cpp` `HandleRequest`.
-/

namespace FreeFlow.Router

open FreeFlow.Found FreeFlow.Verbs

/-! ## One turn -/

/-- The body that belongs to the request type in the header. Kind: D -/
def bodyOf (up : List UInt8) : BodySize :=
  match headerFunc up with
  | some f => (handler f).body
  | none => .none

/-- The whole body was received, if there is one; `size` is the header's `body_size`. Kind: D -/
def BodyReceived (e : Env) (size : ℕ) : BodySize → Prop
  | .none => True
  | .fixed n => Whole e.bodyRead n
  | .given => Whole e.bodyRead size

instance (e : Env) (size : ℕ) : (b : BodySize) → Decidable (BodyReceived e size b)
  | .none => .isTrue trivial
  | .fixed n => inferInstanceAs (Decidable (Whole e.bodyRead n))
  | .given => inferInstanceAs (Decidable (Whole e.bodyRead size))

/-- The whole header and the whole body were received. Kind: D -/
def Received (e : Env) (up : List UInt8) : Prop :=
  Whole e.headerRead sizeofRequestHeader ∧ BodyReceived e (headerBodySize up) (bodyOf up)

instance (e : Env) (up : List UInt8) : Decidable (Received e up) :=
  inferInstanceAs (Decidable (_ ∧ _))

/-- The result of the first `read` passes for a whole header. Source: `ffrouter.cpp`
`HandleRequest`. Kind: D -/
def HeaderPasses (e : Env) : Prop :=
  e.headerRead = none ∨ Whole e.headerRead sizeofRequestHeader

/-- The result of the second one passes for a whole body. Kind: D -/
def BodyPasses (e : Env) (up : List UInt8) : Prop :=
  ∃ body left,
    readBody e (headerBodySize up) (up.drop sizeofRequestHeader) (bodyOf up) = .ok body left

/-- The turn gets behind its reads: to the work of the handler for the request type in the header,
or, with a header that was never read, to that of whatever is in its memory. Kind: D -/
def Executes (e : Env) (up : List UInt8) : Prop :=
  e.headerRead = none ∨ (Whole e.headerRead sizeofRequestHeader ∧ BodyPasses e up)

/-- The reads of a turn, and the rest of it. Kind: L -/
lemma turn_of_whole {e : Env} {up : List UInt8} (hh : Whole e.headerRead sizeofRequestHeader) :
    ∃ h : Handler, h.body = bodyOf up ∧
      turn e up = h.run e (headerBodySize up) (up.drop sizeofRequestHeader) := by
  obtain ⟨n, hn, hle⟩ := hh
  unfold turn bodyOf
  rw [hn]
  simp only [if_neg (not_lt.mpr hle)]
  cases headerFunc up with
  | some f => exact ⟨handler f, rfl, rfl⟩
  | none => exact ⟨handler .ibvGetDeviceList, rfl, rfl⟩

/-- A header that is cut short closes the connection. Kind: L -/
lemma turn_of_short {e : Env} {up : List UInt8} {n : ℕ} (hn : e.headerRead = some n)
    (hlt : n < sizeofRequestHeader) : turn e up = .early (up.drop n) .kill := by
  unfold turn
  rw [hn]
  exact if_pos hlt

/-- A body that does not pass leaves by one of the two exits. Kind: L -/
lemma readBody_of_not_passes {e : Env} {up : List UInt8} (h : ¬ BodyPasses e up) :
    ∃ left x, readBody e (headerBodySize up) (up.drop sizeofRequestHeader) (bodyOf up) =
      .failed left x ∧ (x = .kill ∨ x = .toEnd) := by
  cases hread : readBody e (headerBodySize up) (up.drop sizeofRequestHeader) (bodyOf up) with
  | ok body left => exact absurd ⟨body, left, hread⟩ h
  | failed left x =>
      refine ⟨left, x, rfl, ?_⟩
      unfold readBody at hread
      split at hread
      · cases hread
      all_goals
        split at hread
        · split at hread
          · cases hread
            simp
          · cases hread
        · cases hread <;> simp

/-- **A turn that does not get behind its reads has no effect**: nothing is sent, and it closes the
connection or goes on to the next header. Kind: P -/
theorem turn_of_not_executes {e : Env} {up : List UInt8} (h : ¬ Executes e up) :
    ∃ left x, turn e up = .early left x ∧ (x = .kill ∨ x = .toEnd) := by
  rw [Executes, not_or, not_and] at h
  obtain ⟨hread, hbody⟩ := h
  obtain ⟨n, hn⟩ := Option.ne_none_iff_exists'.mp hread
  by_cases hlt : n < sizeofRequestHeader
  · exact ⟨_, _, turn_of_short hn hlt, .inl rfl⟩
  · have hh : Whole e.headerRead sizeofRequestHeader := ⟨n, hn, not_lt.mp hlt⟩
    obtain ⟨left, x, hfailed, hx⟩ := readBody_of_not_passes (hbody hh)
    obtain ⟨h, hbodyOf, hturn⟩ := @turn_of_whole _ up hh
    refine ⟨left, x, ?_, hx⟩
    rw [hturn, Handler.run, hbodyOf, hfailed]

/-- **What is executed is complete** exactly when neither `read` that is compared with a `sizeof`
has failed. Kind: L -/
lemma executes_imp_received_iff (e : Env) (up : List UInt8) :
    (Executes e up → Received e up) ↔
      e.headerRead ≠ none ∧ (Whole e.headerRead sizeofRequestHeader →
        ∀ n, bodyOf up = .fixed n → e.bodyRead ≠ none) := by
  constructor
  · intro himp
    refine ⟨fun hnone => ?_, fun hh n hn hnone => ?_⟩
    · obtain ⟨⟨k, hk, -⟩, -⟩ := himp (.inl hnone)
      rw [hnone] at hk
      cases hk
    · have hpass : BodyPasses e up := ⟨e.buffer, _, by rw [hn, readBody, hnone]⟩
      obtain ⟨-, hbody⟩ := himp (.inr ⟨hh, hpass⟩)
      rw [hn] at hbody
      obtain ⟨k, hk, -⟩ := hbody
      rw [hnone] at hk
      cases hk
  · rintro ⟨hheader, hfixed⟩ (hnone | ⟨hh, body, left, hread⟩)
    · exact absurd hnone hheader
    · refine ⟨hh, ?_⟩
      cases hb : bodyOf up with
      | none => trivial
      | fixed n =>
          obtain ⟨k, hk⟩ := Option.ne_none_iff_exists'.mp (hfixed hh n hb)
          rw [hb, readBody, hk] at hread
          by_cases hlt : k < n
          · simp [hlt] at hread
          · exact ⟨k, hk, not_lt.mp hlt⟩
      | given =>
          rw [hb, readBody] at hread
          cases hk : e.bodyRead with
          | none => simp [hk] at hread
          | some k =>
              by_cases hlt : k < headerBodySize up
              · simp [hk, hlt] at hread
              · exact ⟨k, hk, not_lt.mp hlt⟩

/-! ## A connection -/

/-- A connection before a turn: the bytes that were sent and not read yet, and whether they are what
is left of an incomplete message. Kind: D -/
structure Link where
  unread : List UInt8
  broken : Bool
  deriving DecidableEq, Repr

/-- Nothing was sent yet. Kind: D -/
def Link.start : Link := ⟨[], false⟩

/-- One turn, with the bytes that arrive for it and the results of its calls; there is no next one
when the loop is left. Kind: D -/
def linkStep (c : Link) (a : List UInt8 × Env) : Option Link :=
  let up := c.unread ++ a.1
  let t := turn a.2 up
  match t.exit with
  | none => some ⟨t.left, c.broken⟩
  | some .toEnd => some ⟨t.left, c.broken || !decide (Received a.2 up)⟩
  | some _ => none

/-- **Only complete requests are executed**, and what is left of an incomplete one does not pass for
a header. Kind: D -/
def ReadsProper (c : Link) (a : List UInt8 × Env) : Prop :=
  (Executes a.2 (c.unread ++ a.1) → Received a.2 (c.unread ++ a.1)) ∧
    (c.broken = true → ¬ HeaderPasses a.2)

/-- **The condition on the results**: no `read` of a header fails, and none of a body whose size is
a `sizeof`; and after an incomplete message the next `read` of a header comes short. Kind: D -/
def ReadsSound (c : Link) (a : List UInt8 × Env) : Prop :=
  (∃ n, a.2.headerRead = some n ∧ (c.broken = true → n < sizeofRequestHeader)) ∧
    (Whole a.2.headerRead sizeofRequestHeader →
      ∀ n, bodyOf (c.unread ++ a.1) = .fixed n → a.2.bodyRead ≠ none)

/-- The two agree on every turn. Kind: L -/
lemma readsProper_iff (c : Link) (a : List UInt8 × Env) : ReadsProper c a ↔ ReadsSound c a := by
  unfold ReadsProper ReadsSound
  rw [executes_imp_received_iff]
  constructor
  · rintro ⟨⟨hheader, hbody⟩, hbroken⟩
    obtain ⟨n, hn⟩ := Option.ne_none_iff_exists'.mp hheader
    refine ⟨⟨n, hn, fun hb => ?_⟩, hbody⟩
    by_contra hge
    exact hbroken hb (.inr ⟨n, hn, not_lt.mp hge⟩)
  · rintro ⟨⟨n, hn, hshort⟩, hbody⟩
    refine ⟨⟨by simp [hn], hbody⟩, fun hb hpasses => ?_⟩
    rcases hpasses with hnone | ⟨k, hk, hle⟩
    · rw [hn] at hnone
      cases hnone
    · rw [hn, Option.some.injEq] at hk
      have hlt := hshort hb
      omega

/-- **Complete requests.** For every sequence of bytes that arrive and of results of the reads: only
complete requests are executed, and nothing left of an incomplete one passes for a header, exactly
when the results meet the condition. Kind: P -/
theorem readsProper_iff_sound (as : List (List UInt8 × Env)) :
    Along linkStep ReadsProper .start as ↔ Along linkStep ReadsSound .start as := by
  have heq : ReadsProper = ReadsSound := by
    funext c a
    exact propext (readsProper_iff c a)
  rw [heq]

/-- After an incomplete message that was not executed, a turn that meets the condition closes the
connection. Kind: P -/
theorem linkStep_of_broken {c : Link} {a : List UInt8 × Env} (hb : c.broken = true)
    (h : ReadsSound c a) : linkStep c a = none := by
  obtain ⟨⟨n, hn, hshort⟩, -⟩ := h
  unfold linkStep
  simp only [turn_of_short hn (hshort hb), Turn.early]

/-! A request to destroy a QP, and a post of twenty bytes. -/

/-- The results of a turn: those of its reads, and success of everything else. The request buffer
still has the handle `7` of an earlier request. Kind: D -/
def readsEnv (headerRead bodyRead : Option ℕ) : Env where
  headerRead := headerRead
  bodyRead := bodyRead
  buffer := [7, 0, 0, 0]
  mapped := fun _ _ => true
  succeeds := fun _ => true
  count := 0
  fdSent := true
  wrote := some 4
  returnsFd := false

/-- The request to destroy the QP with handle `5`. Kind: D -/
def destroyFive : List UInt8 := headerBytes 1 .ibvDestroyQp 4 ++ [5, 0, 0, 0]

/-- A post that arrives in two parts. Kind: D -/
def splitPost : List UInt8 := headerBytes 1 .ibvPostSend 20 ++ List.replicate 20 0

/-- **The three ways.** A `read` of a header fails and the turn goes on. A `read` of the body of a
`DESTROY_QP` for the handle 5 fails, and the handler takes the 7 that its buffer still has. A post
comes in two parts, and the second one is taken for a header. Kind: C -/
theorem readsProper_fails :
    ¬ Along linkStep ReadsProper .start [([], readsEnv none (some 4))] ∧
      (¬ Along linkStep ReadsProper .start [(destroyFive, readsEnv (some 12) none)] ∧
        readBody (readsEnv (some 12) none) 4 [5, 0, 0, 0] (bodyOf destroyFive) =
          .ok [7, 0, 0, 0] [5, 0, 0, 0]) ∧
      ¬ Along linkStep ReadsProper .start
        [(splitPost, readsEnv (some 12) (some 8)), ([], readsEnv (some 12) (some 4))] := by
  refine ⟨fun h => ?_, ⟨fun h => ?_, rfl⟩, fun h => ?_⟩
  · exact absurd (h.1.1 (.inl rfl)) (by decide)
  · exact absurd (h.1.1 (.inr ⟨⟨12, rfl, le_rfl⟩, _, _, rfl⟩)) (by decide)
  · -- twelve bytes of the post are left, as many as a header has
    have hrest := h.2 ⟨List.replicate 12 0, true⟩ rfl
    exact hrest.1.2 rfl (.inr ⟨12, rfl, le_rfl⟩)

end FreeFlow.Router
