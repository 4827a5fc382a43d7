import FreeFlow.Found.Run
import FreeFlow.Wire.RemoteAccess

/-!
# Histories of post-send calls on one channel

The request area of a QP's channel is never cleared: a call overwrites what it needs, the router
rewrites the same bytes in place, and the next call starts from what is left. A step of the machine
is one `ibv_cmd_post_send` together with its service; the state is the request area and everything
handed to `ibv_post_send` so far.

* `once_iff_nonempty` — **exactly once**: what has been handed over is what was posted, in order,
  exactly when no list of the history is empty. For an empty list the router's loop makes no turn
  and `ibv_post_send` is called on whatever lies where the first request would be.
* `replayed_of_empty` — after a list that was not empty, that is the list again.

Source: `cmd.c` `ibv_cmd_post_send`; `ffrouter.cpp` `CtrlChannelLoop` (`IBV_POST_SEND`).
-/

namespace FreeFlow.Wire

open FreeFlow.Found FreeFlow.Verbs FreeFlow.Client FreeFlow.Router

/-! ## The machine -/

/-- A call: what other requests of the QP (its receives use the same area) have done to the request
area since the last one, the client, the router's tables while it serves the call, and the list.
Kind: D -/
structure Post where
  meanwhile : Mem → Mem
  lib : Lib
  tables : Tables
  tbl : ℕ → UInt32 → Option Router.MrShm
  stale : Option Router.Qp
  list : List SendWr

/-- The request area, and the requests handed to `ibv_post_send` so far. Kind: D -/
structure Area where
  mem : Mem
  handedOver : List Posted

variable (qp : Client.Qp) (B : Mapping ctrlReqSize) (fuel : ℕ)

/-- A call and its service: the client encodes the list, the router decodes it in place and calls
`ibv_post_send`, which follows `next` for at most `fuel` requests.
Source: `cmd.c` `ibv_cmd_post_send`; `ffrouter.cpp` `CtrlChannelLoop` (`IBV_POST_SEND`)
Kind: D -/
def stepPost (s : Area) (d : Post) : Option Area := do
  let (m, _) ← ibvCmdPostSend d.lib qp d.list (d.meanwhile s.mem)
  let call ← channelPostSend d.tables d.tbl d.stale B m
  let out ← posted B call.mem fuel call.wr
  some ⟨call.mem, s.handedOver ++ out⟩

/-- A request without the address word that the router translates. Kind: D -/
def request (o : Posted) : Posted := { o with fields := { o.fields with remoteAddr := 0 } }

/-- What should be handed over for a call: its requests with the router's addresses. Kind: D -/
def Post.requests (d : Post) : List Posted :=
  d.list.map fun w => request (delivered d.lib d.tables w)

/-- What a call needs to be served: the router knows the QP, the lkeys are known, the list fits the
channel and the walk along `next` is long enough. Kind: D -/
structure Servable (q : Router.Qp) (d : Post) : Prop where
  registered : Registered d.tables qp.handle q
  lkeys : ∀ w ∈ d.list, ∀ e ∈ w.sgList, (d.lib.mapLkeyToMrShm e.lkey).isSome
  fits : encodedSize qp d.list ≤ ctrlReqSize
  long : d.list.length ≤ fuel

/-! ## One call -/

/-- The address word apart, the requests handed over for a list are its requests. Kind: L -/
lemma map_request_handed (c : Lib) (R : Tables) (tbl : ℕ → UInt32 → Option Router.MrShm)
    (q : Router.Qp) (ws : List SendWr) (m : Mem) :
    (handed c R tbl q ws m).map request = ws.map fun w => request (delivered c R w) := by
  have hcarry : ∀ g w, request (carry R g (wireView c.mapLkeyToMrShm w)) =
      request (delivered c R w) := by
    intro g w
    refine congrArg₂ Posted.mk ?_ ?_
    · simp only [carry, wireView, delivered]
      split <;> rfl
    · simp [carry, wireView, delivered, offsetSge, Function.comp_def]
  refine List.ext_getElem (by simp) fun k hk hk' => ?_
  simp only [handed, List.getElem_map, List.getElem_zipWith]
  exact hcarry _ _

section Step

variable {qp B fuel} {q : Router.Qp} {s s' : Area} {d : Post}

/-- The service of a call, up to the walk along `next`. Kind: L -/
lemma serve_eq (s : Area) (h : Servable qp fuel q d) :
    ∃ m m', RequestArea d.lib qp d.list m ∧
      channelPostSend d.tables d.tbl d.stale B m = some ⟨q, B.ptr wrOff, m'⟩ ∧
      stepPost qp B fuel s d =
        (posted B m' fuel (B.ptr wrOff)).map fun out => ⟨m', s.handedOver ++ out⟩ := by
  obtain ⟨m, hrun, harea, -⟩ := ibvCmdPostSend_requestArea d.lib qp d.list (d.meanwhile s.mem)
    h.lkeys h.fits
  obtain ⟨m', hcall, -⟩ := channelPostSend_handed d.tbl d.stale B harea h.registered
  refine ⟨m, m', harea, hcall, ?_⟩
  unfold stepPost
  simp only [hrun, hcall, Option.bind_eq_bind, Option.bind_some]
  cases posted B m' fuel (B.ptr wrOff) <;> rfl

/-- **A list that is not empty** is handed over as it was posted, whatever the area held, and stays
there. Kind: L -/
lemma step_of_nonempty (B : Mapping ctrlReqSize) (s : Area) (h : Servable qp fuel q d)
    (hne : d.list ≠ []) :
    ∃ m m', stepPost qp B fuel s d =
        some ⟨m', s.handedOver ++ handed d.lib d.tables d.tbl q d.list m⟩ ∧
      Linked B m' (handed d.lib d.tables d.tbl q d.list m) wrOff (sgeOff d.list.length) := by
  obtain ⟨m, m', harea, hcall, hstep⟩ := serve_eq (B := B) s h
  obtain ⟨m₁, hcall₁, hlinked⟩ := channelPostSend_handed d.tbl d.stale B harea h.registered
  obtain ⟨m₂, hcall₂, hread⟩ := posted_handed d.tbl d.stale B harea h.registered hne h.fits
  rw [hcall, Option.some.injEq, PostCall.mk.injEq] at hcall₁ hcall₂
  obtain ⟨-, -, rfl⟩ := hcall₁
  obtain ⟨-, -, rfl⟩ := hcall₂
  exact ⟨m, m', by rw [hstep, hread fuel h.long]; rfl, hlinked⟩

/-- Every call hands over at least one request: `wr` is not null, whatever the list. Kind: L -/
lemma length_lt_of_step (h : Servable qp fuel q d) (hstep : stepPost qp B fuel s d = some s') :
    s.handedOver.length < s'.handedOver.length := by
  obtain ⟨m, m', -, -, heq⟩ := serve_eq (B := B) s h
  rw [heq, Option.map_eq_some_iff] at hstep
  obtain ⟨out, hout, rfl⟩ := hstep
  have hne := posted_ne_nil hout (B.ptr_ne_zero (by decide))
  rw [List.length_append]
  exact Nat.lt_add_of_pos_right (List.length_pos_iff.mpr hne)

/-- No call hands over fewer requests than it was given. Kind: L -/
lemma length_le_of_step (h : Servable qp fuel q d) (hstep : stepPost qp B fuel s d = some s') :
    s.handedOver.length + d.list.length ≤ s'.handedOver.length := by
  by_cases hne : d.list = []
  · rw [hne]
    exact (length_lt_of_step h hstep).le
  · obtain ⟨m, m', heq, -⟩ := step_of_nonempty B s h hne
    rw [hstep, Option.some.injEq] at heq
    rw [heq, List.length_append, length_handed]

end Step

/-! ## Whole histories -/

section History

variable {qp B fuel} {q : Router.Qp}

/-- The run of a history without empty lists. Kind: L -/
lemma exec_of_nonempty (s : Area) (ds : List Post) (h : ∀ d ∈ ds, Servable qp fuel q d)
    (hne : ∀ d ∈ ds, d.list ≠ []) :
    ∃ t, exec (stepPost qp B fuel) s ds = some t ∧
      t.handedOver.map request = s.handedOver.map request ++ ds.flatMap Post.requests := by
  induction ds generalizing s with
  | nil => exact ⟨s, rfl, by simp⟩
  | cons d ds ih =>
      obtain ⟨hd, hds⟩ := List.forall_mem_cons.mp h
      obtain ⟨hdne, hdsne⟩ := List.forall_mem_cons.mp hne
      obtain ⟨m, m', hstep, -⟩ := step_of_nonempty B s hd hdne
      obtain ⟨t, hrun, ht⟩ := ih ⟨m', s.handedOver ++ handed d.lib d.tables d.tbl q d.list m⟩ hds
        hdsne
      refine ⟨t, (exec_cons_eq_some _).mpr ⟨_, hstep, hrun⟩, ?_⟩
      rw [ht, List.map_append, map_request_handed, List.flatMap_cons, List.append_assoc]
      rfl

/-- A run hands over at least as many requests as were posted, and more as soon as one list was
empty. Kind: L -/
lemma length_of_exec {s t : Area} {ds : List Post} (h : ∀ d ∈ ds, Servable qp fuel q d)
    (hrun : exec (stepPost qp B fuel) s ds = some t) :
    s.handedOver.length + (ds.flatMap Post.requests).length ≤ t.handedOver.length ∧
      ((∃ d ∈ ds, d.list = []) →
        s.handedOver.length + (ds.flatMap Post.requests).length < t.handedOver.length) := by
  induction ds generalizing s with
  | nil =>
      obtain rfl : s = t := Option.some.inj hrun
      simp
  | cons d ds ih =>
      obtain ⟨hd, hds⟩ := List.forall_mem_cons.mp h
      obtain ⟨s', hstep, hrest⟩ := (exec_cons_eq_some _).mp hrun
      obtain ⟨hle, hlt⟩ := ih hds hrest
      have hfirst := length_le_of_step hd hstep
      have hcount : ((d :: ds).flatMap Post.requests).length =
          d.list.length + (ds.flatMap Post.requests).length := by
        rw [List.flatMap_cons, List.length_append, Post.requests, List.length_map]
      refine ⟨by omega, ?_⟩
      rintro ⟨e, he, hempty⟩
      rcases List.mem_cons.mp he with rfl | hmem
      · have hmore := length_lt_of_step hd hstep
        rw [hcount, hempty, List.length_nil]
        omega
      · have hmore := hlt ⟨e, hmem, hempty⟩
        omega

/-- The service of an empty list: the loop makes no turn, so behind the header everything stays.
Kind: L -/
lemma serve_of_empty (B : Mapping ctrlReqSize) (s : Area) {e : Post} (h : Servable qp fuel q e)
    (hempty : e.list = []) :
    ∃ m, (∀ x, wrOff ≤ x → m x = e.meanwhile s.mem x) ∧ stepPost qp B fuel s e =
      (posted B m fuel (B.ptr wrOff)).map fun out => ⟨m, s.handedOver ++ out⟩ := by
  obtain ⟨m, hrun, harea, -⟩ := ibvCmdPostSend_requestArea e.lib qp e.list (e.meanwhile s.mem)
    h.lkeys h.fits
  -- the client writes the header and nothing else
  have hheader := (ibvCmdPostSend_eq e.lib qp e.list (e.meanwhile s.mem) h.fits).2.2
  rw [hrun, hempty] at hheader
  have hm := (Prod.mk.inj (Option.some.inj hheader)).1
  have hbytes : ∀ x, wrOff ≤ x → m x = e.meanwhile s.mem x := by
    rw [hm]
    exact (putHeader_words _ _ _ _ _ _ _).2
  refine ⟨m, hbytes, ?_⟩
  have hcall : channelPostSend e.tables e.tbl e.stale B m = some ⟨q, B.ptr wrOff, m⟩ := by
    have hhandle : m.u32 (sizeofRequestHeader + 16) = qp.handle := harea.qpHandle
    have hcount : (m.u32 (sizeofRequestHeader + 20)).toNat = 0 :=
      harea.wrCount.trans (by rw [hempty]; rfl)
    rw [channelPostSend, hhandle, h.registered.resolveQp, decodePostSend]
    simp only [hcount, decodeLoop, Option.bind_eq_bind, Option.bind_some]
    rfl
  unfold stepPost
  simp only [hrun, hcall, Option.bind_eq_bind, Option.bind_some]
  cases posted B m fuel (B.ptr wrOff) <;> rfl

/-- **After a list that was not empty, an empty one hands it over again.** Kind: P -/
theorem replayed_of_empty (B : Mapping ctrlReqSize) (s : Area) {d e : Post}
    (hd : Servable qp fuel q d) (hne : d.list ≠ []) (he : Servable qp fuel q e)
    (hempty : e.list = []) (hkeep : e.meanwhile = id) :
    ∃ t out, exec (stepPost qp B fuel) s [d, e] = some t ∧ out.map request = d.requests ∧
      t.handedOver = s.handedOver ++ out ++ out := by
  obtain ⟨m, m', hstep, hlinked⟩ := step_of_nonempty B s hd hne
  obtain ⟨m₁, hbytes, hagain⟩ := serve_of_empty B
    ⟨m', s.handedOver ++ handed d.lib d.tables d.tbl q d.list m⟩ he hempty
  rw [hkeep] at hbytes
  -- the list of the first call lies where it was
  have hstill : Linked B m₁ (handed d.lib d.tables d.tbl q d.list m) wrOff (sgeOff d.list.length) :=
    hlinked.congr wrOff le_rfl (Nat.le_add_right _ _) hbytes
  have hread := posted_of_linked_handed d.tbl hstill hne hd.fits fuel hd.long
  refine ⟨⟨m₁, s.handedOver ++ handed d.lib d.tables d.tbl q d.list m ++
      handed d.lib d.tables d.tbl q d.list m⟩, handed d.lib d.tables d.tbl q d.list m,
    (exec_cons_eq_some _).mpr ⟨_, hstep, (exec_cons_eq_some _).mpr ⟨_, ?_, rfl⟩⟩,
    map_request_handed _ _ _ _ _ _, rfl⟩
  rw [hagain, hread]
  rfl

end History

/-- **Exactly-once posting**: for every history of calls on a QP that the router knows, of lists
with known lkeys that fit the channel, with any content of the area at the start and in between, the
requests handed over are those posted, in order, exactly when no list is empty.
Source: `cmd.c` `ibv_cmd_post_send`; `ffrouter.cpp` `CtrlChannelLoop` (`IBV_POST_SEND`)
Kind: P -/
theorem once_iff_nonempty (q : Router.Qp) (s : Area) (ds : List Post)
    (h : ∀ d ∈ ds, Servable qp fuel q d) :
    (∃ t, exec (stepPost qp B fuel) s ds = some t ∧
      t.handedOver.map request = s.handedOver.map request ++ ds.flatMap Post.requests) ↔
    ∀ d ∈ ds, d.list ≠ [] := by
  constructor
  · rintro ⟨t, hrun, ht⟩ d hd hempty
    have hmore := (length_of_exec h hrun).2 ⟨d, hd, hempty⟩
    have hlen := congrArg List.length ht
    rw [List.length_append, List.length_map, List.length_map] at hlen
    omega
  · exact exec_of_nonempty s ds h

/-- Calls with the client and the tables of the round trip. Kind: D -/
def samplePostOf (ws : List SendWr) : Post :=
  ⟨id, sampleLib, sampleTables, fun _ => sampleTables.rkeyMrShm, none, ws⟩

/-- The list of three requests twice: six requests are handed over, in order. Kind: C -/
theorem once_two_lists :
    ∃ t, exec (stepPost ⟨3, .rc⟩ sampleChannel 3) ⟨fun _ => 0, []⟩
        [samplePostOf sampleList, samplePostOf sampleList] = some t ∧
      t.handedOver.map request = [].map request ++
        [samplePostOf sampleList, samplePostOf sampleList].flatMap Post.requests := by
  refine (once_iff_nonempty ⟨3, .rc⟩ sampleChannel 3 ⟨0, .rc⟩ ⟨fun _ => 0, []⟩ _ ?_).mpr ?_
  · intro d hd
    obtain rfl : d = samplePostOf sampleList := by simpa using hd
    exact ⟨⟨by decide, rfl⟩, by decide, by decide, by decide⟩
  · intro d hd
    obtain rfl : d = samplePostOf sampleList := by simpa using hd
    decide

/-- **An empty list after a list of three**: six requests are handed over, and three were posted.
Kind: C -/
theorem once_fails_empty_list :
    ∃ t, exec (stepPost ⟨3, .rc⟩ sampleChannel 3) ⟨fun _ => 0, []⟩
        [samplePostOf sampleList, samplePostOf []] = some t ∧
      t.handedOver.map request =
        (samplePostOf sampleList).requests ++ (samplePostOf sampleList).requests ∧
      [samplePostOf sampleList, samplePostOf []].flatMap Post.requests =
        (samplePostOf sampleList).requests := by
  have hfirst : Servable ⟨3, .rc⟩ 3 ⟨0, .rc⟩ (samplePostOf sampleList) :=
    ⟨⟨by decide, rfl⟩, by decide, by decide, by decide⟩
  have hempty : Servable ⟨3, .rc⟩ 3 ⟨0, .rc⟩ (samplePostOf []) :=
    ⟨⟨by decide, rfl⟩, by decide, by decide, by decide⟩
  obtain ⟨t, out, hrun, hout, ht⟩ := replayed_of_empty sampleChannel ⟨fun _ => 0, []⟩ hfirst
    (by decide) hempty rfl rfl
  refine ⟨t, hrun, ?_, by simp [Post.requests, samplePostOf]⟩
  rw [ht, List.nil_append, List.map_append, hout]

end FreeFlow.Wire
