import FreeFlow.Router.ObjectEffects

/-!
# Entries that outlive their objects

An object is in more tables than one. A QP is in `qp_map` and has a bucket in `tokenbucket`; an MR
is in `mr_map` and `shmr_map`, its memory is in `lkey_ptr` under its key and, once it is announced,
in `rkey_mr_shm`; a piece with a name is in `shm_map` as well. The handler that destroys an object
clears one or two of them. What it leaves is found by later requests.

* `live_of_step`, `tokenbucket_of_step`, … — what a step does to each table.
* `Gone`, `Removed` — a pointer to an object that was destroyed, a piece whose name was unlinked.
* `QpEnds`, `QpMade`, … — the requests that end what an entry leads to, and those that renew the
  entry.
* `gone_bucket_iff`, `gone_ah_iff`, `gone_lkey_iff`, `gone_rkey_iff`, `removed_named_iff`,
  `removed_shmr_iff` — one step, for each of the six tables that can have such entries.
* `NoAlias`, `Renewed`, `noAlias_iff_renewed` — after every run: no table leads to a destroyed
  object exactly when every such end was followed by a renewal. The arrays other than `ah_map` never
  do.
* `noAlias_fails_ended_ah` — an address handle that was destroyed.

An entry that another host announces is not part of this; `Hosts.RkeyMap` has the datagrams.

Source: `ffrouter.cpp` `HandleRequest`, `addShmPiece`, `UDPServer`; `ffrouter.h`
`class FreeFlowRouter`.
-/

namespace FreeFlow.Router.Objects

open FreeFlow.Found FreeFlow.Verbs FreeFlow.Router.Isolation
open ShmNames (ShmPiece NameStep)

/-! ## What a step ends, and what it enters -/

/-- The object a change destroys. Kind: D -/
def Effect.kills : Effect → Option (Table × ℕ)
  | .remove t _ o true => some (t, o)
  | .closeQueue k _ o true => some (table k, o)
  | .deregister _ o true => some (.mr, o)
  | .destroyAh o true => some (.ah, o)
  | _ => none

/-- The name a change unlinks. Kind: D -/
def Effect.unlinks (s : State) : Effect → Option String
  | .closeQueue k h _ _ => (s.ctrl k h).map ShmPiece.name
  | .deregister h _ _ => (s.shm.shmrMap h).map ShmPiece.name
  | _ => none

/-- The object at which a table was set to false, and the others. Kind: L -/
lemma ite_false_eq_false_iff {t t' : Table} {o o' : ℕ} {b : Bool} :
    (if t' = t ∧ o' = o then false else b) = false ↔ b = false ∨ some (t, o) = some (t', o') := by
  by_cases heq : t' = t ∧ o' = o
  · simp [heq]
  · have hne : (t, o) ≠ (t', o') := by
      rintro ⟨⟩
      exact heq ⟨rfl, rfl⟩
    simp [heq, hne]

/-- An old object is gone after a step exactly when it was before, or the step destroyed it.
Kind: L -/
lemma live_of_step {s s' : State} {a : Act} (h : step s a = some s') (t : Table) {o : ℕ}
    (ho : o < s.core.next) :
    s'.core.live t o = false ↔ s.core.live t o = false ∨ (effect s a).kills = some (t, o) := by
  rw [(step_effect h).1]
  cases he : effect s a with
  | nothing | setVar | addPiece | announce => simp [Effect.apply, Effect.kills]
  | create | openQueue | register =>
      simp only [Effect.apply, Core.live_put_make, Effect.kills]
      simp [ho.ne]
  | remove _ _ _ ok | closeQueue _ _ _ ok | deregister _ _ ok =>
      rw [Effect.apply, Core.live_drop]
      cases ok with
      | false => simp [Effect.kills]
      | true => simp only [true_and, Effect.kills, ite_false_eq_false_iff]
  | destroyAh _ ok =>
      cases ok with
      | false => simp [Effect.apply, Effect.kills]
      | true =>
          simp only [Effect.apply, if_true, Core.live_kill, Effect.kills, ite_false_eq_false_iff]

/-- Object numbers only grow. Kind: L -/
lemma CoreStep.next_le {c c' : Core} (h : CoreStep c c') : c.next ≤ c'.next := by
  cases h with
  | same | killAh => exact le_rfl
  | make t n ud => exact Core.next_put_make c t n ud ▸ Nat.le_succ _
  | drop t n o ok => exact (Core.next_drop c t n o ok).ge

/-- The handle under which a change enters a bucket. Kind: D -/
def Effect.bucketAt : Effect → Option ℕ
  | .openQueue .qp h _ _ => some h
  | _ => none

/-- The key under which a change enters an MR in `lkey_ptr`. Kind: D -/
def Effect.lkeyAt : Effect → Option UInt32
  | .register _ _ keys => some keys.lkey
  | _ => none

/-- The handle under which a change enters an AH. Kind: D -/
def Effect.ahAt : Effect → Option ℕ
  | .create .ah h => if h < mapSize then some h else none
  | _ => none

lemma tokenbucket_of_step {s s' : State} {a : Act} (h : step s a = some s') (n : ℕ) :
    s'.tokenbucket n =
      if (effect s a).bucketAt = some n then some s.core.next else s.tokenbucket n := by
  rw [(step_effect h).1]
  cases he : effect s a with
  | openQueue k m ud mapped =>
      cases k <;> simp [Effect.apply, Effect.bucketAt, Function.update_apply, eq_comm]
  | _ => simp [Effect.apply, Effect.bucketAt]

lemma lkeyPtr_of_step {s s' : State} {a : Act} (h : step s a = some s') (k : UInt32) :
    s'.lkeyPtr k =
      if (effect s a).lkeyAt = some k then some s.core.next else s.lkeyPtr k := by
  rw [(step_effect h).1]
  cases he : effect s a with
  | register req mapped keys =>
      simp [Effect.apply, Effect.lkeyAt, Function.update_apply, eq_comm]
  | _ => simp [Effect.apply, Effect.lkeyAt]

lemma rkeyMrShm_of_step {s s' : State} {a : Act} (h : step s a = some s') (k : UInt32) :
    s'.rkeyMrShm k =
      if effect s a = .announce k then some (s.lkeyPtr k) else s.rkeyMrShm k := by
  rw [(step_effect h).1]
  cases he : effect s a with
  | announce key =>
      by_cases hk : k = key
      · simp [Effect.apply, hk]
      · simp [Effect.apply, hk, Ne.symm hk]
  | _ => simp [Effect.apply]

lemma ahMap_of_step {s s' : State} {a : Act} (h : step s a = some s') (n : ℕ) :
    s'.core.map .ah n =
      if (effect s a).ahAt = some n then some s.core.next else s.core.map .ah n := by
  obtain ⟨rfl, hlegal⟩ := step_effect h
  cases he : effect s a with
  | create t m =>
      rw [Effect.apply, Core.map_put_make]
      cases t with
      | ah =>
          by_cases hlt : m < mapSize
          · simp [Effect.ahAt, hlt, eq_comm]
          · simp [Effect.ahAt, hlt]
      | _ => simp [Effect.ahAt]
  | openQueue k m ud mapped =>
      rw [Effect.apply, Core.map_put_make, if_neg fun h => by cases k <;> cases h.1]
      simp [Effect.ahAt]
  | register req mapped keys =>
      rw [Effect.apply, Core.map_put_make]
      simp [Effect.ahAt]
  | remove t m o ok =>
      rw [he] at hlegal
      rw [Effect.apply, Core.map_drop, if_neg fun h => hlegal.1.2 h.1.symm]
      simp [Effect.ahAt]
  | closeQueue k m o ok =>
      rw [Effect.apply, Core.map_drop, if_neg fun h => by cases k <;> cases h.1]
      simp [Effect.ahAt]
  | deregister m o ok =>
      rw [Effect.apply, Core.map_drop]
      simp [Effect.ahAt]
  | destroyAh o ok => cases ok <;> simp [Effect.apply, Effect.ahAt, Core.kill]
  | _ => simp [Effect.apply, Effect.ahAt]

/-! ## The shared memory names -/

lemma nameStep_refl (s : ShmNames.State) : NameStep s s none where
  entries _ _ h := h
  added _ _ hnone hsome := absurd (hnone.symm.trans hsome) (by simp)
  unbound _ h := absurd h (by simp)
  kept _ _ := .inl rfl
  nextObj_le := le_rfl
  bound_lt h := h

/-- Every step does to names and pieces what `NameStep` says. Kind: L -/
lemma nameStep_of_step {s s' : State} {a : Act} (h : step s a = some s') :
    NameStep s.shm s'.shm ((effect s a).unlinks s) := by
  obtain ⟨rfl, hlegal⟩ := step_effect h
  cases he : effect s a with
  | openQueue k m ud mapped => exact ShmNames.nameStep_shmOpen s.shm (ctrlName k m)
  | addPiece req mapped => exact ShmNames.nameStep_addShmPiece s.shm req mapped
  | register req mapped keys =>
      obtain ⟨shmr, hshmr⟩ := ShmNames.regMr_fst s.shm req ⟨mapped, true, some keys.handle⟩
      have hadd := ShmNames.nameStep_addShmPiece s.shm req mapped
      rw [Effect.apply, hshmr]
      exact hadd.tables s.shm.shmPool _ s.shm.shmrMap shmr
  | closeQueue k m o ok =>
      cases hc : s.ctrl k m with
      | none =>
          simp only [Effect.apply, Effect.unlinks, hc]
          exact nameStep_refl s.shm
      | some sp =>
          simp only [Effect.apply, Effect.unlinks, hc]
          exact ShmNames.nameStep_shmUnlink s.shm sp.name
  | deregister m o ok =>
      rw [he] at hlegal
      obtain ⟨sp, hsp⟩ := Option.ne_none_iff_exists'.mp hlegal.2.2.2
      simp only [Effect.apply, Effect.unlinks, ShmNames.State.deregMr, hsp]
      exact (ShmNames.nameStep_shmUnlink s.shm sp.name).tables s.shm.shmPool _ s.shm.shmrMap _
  | _ => exact nameStep_refl s.shm

/-- The piece of the MR under a handle after a step. Kind: L -/
lemma shmrMap_of_step {s s' : State} {a : Act} (h : step s a = some s') (n : ℕ) :
    s'.shm.shmrMap n =
      match effect s a with
      | .register req mapped keys =>
          if keys.handle = n ∧ n < mapSize then (s.shm.addShmPiece req mapped).2
          else s.shm.shmrMap n
      | .deregister m _ _ => if m = n then none else s.shm.shmrMap n
      | _ => s.shm.shmrMap n := by
  obtain ⟨rfl, hlegal⟩ := step_effect h
  cases he : effect s a with
  | openQueue k m ud mapped => simp only [Effect.apply, shmrMap_openPiece]
  | addPiece req mapped => simp only [Effect.apply, shmrMap_addShmPiece]
  | register req mapped keys =>
      rw [he] at hlegal
      obtain ⟨sp, hsp⟩ := Option.ne_none_iff_exists'.mp hlegal
      simp only [Effect.apply, ShmNames.State.regMr, hsp, shmrMap_addShmPiece]
      by_cases hlt : keys.handle < mapSize
      · by_cases hn : n = keys.handle
        · simp [hlt, hn]
        · simp [hlt, hn, Ne.symm hn]
      · rw [if_neg hlt, if_neg]
        rintro ⟨rfl, hlt'⟩
        exact hlt hlt'
  | closeQueue k m o ok =>
      cases hc : s.ctrl k m <;> simp [Effect.apply, ShmNames.State.shmUnlink, hc]
  | deregister m o ok =>
      rw [he] at hlegal
      obtain ⟨sp, hsp⟩ := Option.ne_none_iff_exists'.mp hlegal.2.2.2
      by_cases hn : n = m
      · simp [Effect.apply, hn, ShmNames.State.deregMr, hsp, ShmNames.State.shmUnlink]
      · simp [Effect.apply, hn, Ne.symm hn, ShmNames.State.deregMr, hsp, ShmNames.State.shmUnlink]
  | _ => rfl

/-! ## What else holds after every run -/

/-- Numbers in the tables are numbers of objects there have been, and no two buckets belong to one
QP. Kind: D -/
structure KeyInv (s : State) : Prop where
  inv : Inv s
  bucket_lt : ∀ h o, s.tokenbucket h = some o → o < s.core.next
  bucket_unique : ∀ h h' o, s.tokenbucket h = some o → s.tokenbucket h' = some o → h = h'
  lkey_lt : ∀ k o, s.lkeyPtr k = some o → o < s.core.next
  rkey_lt : ∀ k o, s.rkeyMrShm k = some (some o) → o < s.core.next

lemma keyInv_start {s : State} (h : Start s) : KeyInv s where
  inv := inv_start h
  bucket_lt n o ho := absurd ((h.tokenbucket n).symm.trans ho) (by simp)
  bucket_unique n _ o ho := absurd ((h.tokenbucket n).symm.trans ho) (by simp)
  lkey_lt k o ho := absurd ((h.lkeyPtr k).symm.trans ho) (by simp)
  rkey_lt k o ho := absurd ((h.rkeyMrShm k).symm.trans ho) (by simp)

/-- The kind of object a change makes. Kind: D -/
def Effect.makes : Effect → Option Table
  | .create t _ => some t
  | .openQueue k _ _ _ => some (table k)
  | .register _ _ _ => some .mr
  | _ => none

lemma Effect.makes_of_bucketAt {e : Effect} {n : ℕ} (h : e.bucketAt = some n) :
    e.makes = some .qp := by
  unfold Effect.bucketAt at h
  split at h
  · rfl
  · cases h

lemma Effect.makes_of_lkeyAt {e : Effect} {k : UInt32} (h : e.lkeyAt = some k) :
    e.makes = some .mr := by
  unfold Effect.lkeyAt at h
  split at h
  · rfl
  · cases h

lemma Effect.makes_of_ahAt {e : Effect} {n : ℕ} (h : e.ahAt = some n) : e.makes = some .ah := by
  unfold Effect.ahAt at h
  split at h
  · rfl
  · cases h

/-- A new object has the next number, and nothing is destroyed with it. Kind: L -/
lemma made_of_step {s s' : State} {a : Act} (h : step s a = some s') {t : Table}
    (ht : (effect s a).makes = some t) :
    s'.core.next = s.core.next + 1 ∧ s'.core.live t s.core.next = true ∧
      (effect s a).kills = none := by
  rw [(step_effect h).1]
  cases he : effect s a with
  | create | openQueue | register =>
      rw [he, Effect.makes, Option.some.injEq] at ht
      subst ht
      refine ⟨Core.next_put_make .., ?_, rfl⟩
      rw [Effect.apply, Core.live_put_make, if_pos ⟨rfl, rfl⟩]
  | _ =>
      rw [he] at ht
      cases ht

/-- An entry stays below the next number, whether it is new or not. Kind: L -/
lemma entry_lt_of_step {s s' : State} {a : Act} (h : step s a = some s') {t : Table}
    {p : Option ℕ} {W : Prop} [Decidable W] (hW : W → (effect s a).makes = some t)
    (hlt : ∀ o, p = some o → o < s.core.next) :
    ∀ o, (if W then some s.core.next else p) = some o → o < s'.core.next := by
  intro o ho
  split at ho
  next hw =>
    rw [(made_of_step h (hW hw)).1, ← Option.some.inj ho]
    exact Nat.lt_succ_self _
  next => exact (hlt o ho).trans_le (coreStep_of_step h).next_le

/-- Every step keeps the invariant. Kind: L -/
lemma KeyInv.step {s s' : State} {a : Act} (hi : KeyInv s) (h : step s a = some s') :
    KeyInv s' where
  inv := hi.inv.step h
  bucket_lt n o ho := by
    rw [tokenbucket_of_step h] at ho
    exact entry_lt_of_step h Effect.makes_of_bucketAt (hi.bucket_lt n) o ho
  bucket_unique n n' o ho ho' := by
    rw [tokenbucket_of_step h] at ho ho'
    have hlt := hi.bucket_lt n o
    have hlt' := hi.bucket_lt n' o
    have hunique := hi.bucket_unique n n' o
    grind
  lkey_lt k o ho := by
    rw [lkeyPtr_of_step h] at ho
    exact entry_lt_of_step h Effect.makes_of_lkeyAt (hi.lkey_lt k) o ho
  rkey_lt k o ho := by
    rw [rkeyMrShm_of_step h] at ho
    split at ho
    next => exact (hi.lkey_lt k o (Option.some.inj ho)).trans_le (coreStep_of_step h).next_le
    next => exact (hi.rkey_lt k o ho).trans_le (coreStep_of_step h).next_le

/-! ## Entries whose object is gone -/

/-- A pointer to an object that was destroyed. Kind: D -/
def Gone (s : State) (t : Table) (p : Option ℕ) : Prop := ∃ o, p = some o ∧ s.core.live t o = false

/-- An entry that steps may renew: it leads to an object that is gone when the step destroys it, or
when it did so before and is not renewed. Kind: L -/
lemma gone_iff_of_step {s s' : State} {a : Act} (h : step s a = some s') {t : Table}
    {p : Option ℕ} {W : Prop} [Decidable W] (hW : W → (effect s a).makes = some t)
    (hlt : ∀ o, p = some o → o < s.core.next) :
    Gone s' t (if W then some s.core.next else p) ↔
      (∃ o, p = some o ∧ (effect s a).kills = some (t, o)) ∨ (Gone s t p ∧ ¬ W) := by
  by_cases hw : W
  · obtain ⟨-, hlive, hkills⟩ := made_of_step h (hW hw)
    simp [Gone, hw, hlive, hkills]
  · simp only [hw, if_false, not_false_eq_true, and_true, Gone]
    constructor
    · rintro ⟨o, ho, hl⟩
      rcases (live_of_step h t (hlt o ho)).mp hl with hold | hkill
      · exact .inr ⟨o, ho, hold⟩
      · exact .inl ⟨o, ho, hkill⟩
    · rintro (⟨o, ho, hkill⟩ | ⟨o, ho, hold⟩)
      · exact ⟨o, ho, (live_of_step h t (hlt o ho)).mpr (.inr hkill)⟩
      · exact ⟨o, ho, (live_of_step h t (hlt o ho)).mpr (.inl hold)⟩

/-- The table and the handle of a destruction that succeeds. Kind: D -/
def ended : Act → Option (Table × ℕ)
  | .deallocPd h ret => if ret = 0 then some (.pd, h) else none
  | .destroyCq h ret => if ret = 0 then some (.cq, h) else none
  | .destroyQp h ret => if ret = 0 then some (.qp, h) else none
  | .destroySrq h ret => if ret = 0 then some (.srq, h) else none
  | .deregMr h ret => if ret = 0 then some (.mr, h) else none
  | .destroyAh h ret => if ret = 0 then some (.ah, h) else none
  | .destroyCompChannel fd ret => if ret = 0 then some (.compChannel, fd) else none
  | .destroyEventChannel fd => some (.eventChannel, fd)
  | _ => none

/-- The changes at the object under a handle. Kind: L -/
lemma kills_at {s : State} {t : Table} {h o : ℕ} {e : ℕ → Effect} {ret : ℤ} {t' : Table}
    (he : ∀ o', (e o').kills = if ret = 0 then some (t, o') else none) :
    (s.at t h e).kills = some (t', o) ↔
      ∃ h', (if ret = 0 then some (t, h) else none) = some (t', h') ∧
        s.core.map t' h' = some o := by
  cases hp : s.core.map t h with
  | none =>
      rw [State.at_of_none hp]
      by_cases hret : ret = 0 <;> simp [Effect.kills, hret]
      rintro rfl
      simp [hp]
  | some o' =>
      rw [State.at_of_some hp, he]
      by_cases hret : ret = 0
      · simp only [if_pos hret, Option.some.injEq, Prod.mk.injEq]
        constructor
        · rintro ⟨rfl, rfl⟩
          exact ⟨h, ⟨rfl, rfl⟩, hp⟩
        · rintro ⟨h', ⟨rfl, rfl⟩, ho⟩
          exact ⟨rfl, Option.some.inj (hp.symm.trans ho)⟩
      · simp [hret]

/-- **Which requests end an object**: the destruction of the one under the handle, if it succeeds.
Kind: L -/
lemma kills_effect_iff {s : State} {a : Act} {t : Table} {o : ℕ} :
    (effect s a).kills = some (t, o) ↔ ∃ h, ended a = some (t, h) ∧ s.core.map t h = some o := by
  cases a with
  | deallocPd h ret | destroyCompChannel h ret | destroyCq h ret | destroyQp h ret
  | destroySrq h ret | deregMr h ret | destroyAh h ret =>
      exact kills_at fun o' => by by_cases hret : ret = 0 <;> simp [Effect.kills, hret, table]
  | destroyEventChannel fd =>
      exact @kills_at s .eventChannel fd o _ 0 t fun o' => by simp [Effect.kills]
  | allocPd out | createCompChannel out | createEventChannel out | createQp _ out _ =>
      cases out <;> simp [effect, creates, opens, Effect.kills, ended]
  | createCq fd out mapped =>
      rw [effect]
      split
      · simp [Effect.kills, ended]
      · cases out <;> simp [opens, Effect.kills, ended]
  | createAh pd out | createSrq pd out mapped =>
      cases hp : s.core.map .pd pd <;> cases out <;>
        simp [effect, State.at, hp, creates, opens, Effect.kills, ended]
  | regMr pd req mapped out =>
      cases hsp : (s.shm.addShmPiece req mapped).2 <;> cases hp : s.core.map .pd pd <;>
        cases out <;> simp [effect, hsp, hp, Effect.kills, ended]
  | regMrMapping key here => cases here <;> simp [effect, Effect.kills, ended]
  | _ => simp [effect, Effect.kills, ended]

/-! ## When an entry leads to an object that is gone -/

/-- The QP under the handle is destroyed. Kind: D -/
def QpEnds (h : ℕ) (s : State) (a : Act) : Prop :=
  ended a = some (.qp, h) ∧ s.core.map .qp h ≠ none

/-- A QP gets the handle. Kind: D -/
def QpMade (h : ℕ) (s : State) (a : Act) : Prop := (effect s a).bucketAt = some h

/-- The address handle under the handle is destroyed. Kind: D -/
def AhEnds (h : ℕ) (s : State) (a : Act) : Prop :=
  ended a = some (.ah, h) ∧ s.core.map .ah h ≠ none

/-- An address handle gets the handle. Kind: D -/
def AhMade (h : ℕ) (s : State) (a : Act) : Prop := (effect s a).ahAt = some h

/-- The MR whose memory `lkey_ptr` has under the key is deregistered. Kind: D -/
def LkeyEnds (k : UInt32) (s : State) (a : Act) : Prop :=
  ∃ h o, ended a = some (.mr, h) ∧ s.core.map .mr h = some o ∧ s.lkeyPtr k = some o

/-- An MR gets the key. Kind: D -/
def LkeyMade (k : UInt32) (s : State) (a : Act) : Prop := (effect s a).lkeyAt = some k

/-- The MR whose memory `rkey_mr_shm` has under the key is deregistered, or the memory of an MR that
is gone is announced under it. Kind: D -/
def RkeyEnds (k : UInt32) (s : State) (a : Act) : Prop :=
  (∃ h o, ended a = some (.mr, h) ∧ s.core.map .mr h = some o ∧ s.rkeyMrShm k = some (some o)) ∨
    (effect s a = .announce k ∧ Gone s .mr (s.lkeyPtr k))

/-- Memory is announced under the key. Kind: D -/
def RkeyMade (k : UInt32) (s : State) (a : Act) : Prop := effect s a = .announce k

section Steps

variable {s s' : State} {a : Act} (hi : KeyInv s) (h : step s a = some s')
include hi h

lemma gone_bucket_iff (n : ℕ) :
    Gone s' .qp (s'.tokenbucket n) ↔
      QpEnds n s a ∨ (Gone s .qp (s.tokenbucket n) ∧ ¬ QpMade n s a) := by
  rw [tokenbucket_of_step h, gone_iff_of_step h Effect.makes_of_bucketAt (hi.bucket_lt n)]
  refine or_congr ?_ Iff.rfl
  simp only [kills_effect_iff, QpEnds]
  constructor
  · rintro ⟨o, ho, m, ha, hm⟩
    cases hi.bucket_unique m n o (hi.inv.bucket m o hm) ho
    exact ⟨ha, by simp [hm]⟩
  · rintro ⟨ha, hn⟩
    obtain ⟨o, ho⟩ := Option.ne_none_iff_exists'.mp hn
    exact ⟨o, hi.inv.bucket n o ho, n, ha, ho⟩

lemma gone_ah_iff (n : ℕ) :
    Gone s' .ah (s'.core.map .ah n) ↔
      AhEnds n s a ∨ (Gone s .ah (s.core.map .ah n) ∧ ¬ AhMade n s a) := by
  rw [ahMap_of_step h, gone_iff_of_step h Effect.makes_of_ahAt
    fun o ho => (hi.inv.core.below .ah n o ho).2]
  refine or_congr ?_ Iff.rfl
  simp only [kills_effect_iff, AhEnds]
  constructor
  · rintro ⟨o, ho, m, ha, hm⟩
    cases hi.inv.core.unique .ah m n o hm ho
    exact ⟨ha, by simp [hm]⟩
  · rintro ⟨ha, hn⟩
    obtain ⟨o, ho⟩ := Option.ne_none_iff_exists'.mp hn
    exact ⟨o, ho, n, ha, ho⟩

lemma gone_lkey_iff (k : UInt32) :
    Gone s' .mr (s'.lkeyPtr k) ↔
      LkeyEnds k s a ∨ (Gone s .mr (s.lkeyPtr k) ∧ ¬ LkeyMade k s a) := by
  rw [lkeyPtr_of_step h, gone_iff_of_step h Effect.makes_of_lkeyAt (hi.lkey_lt k)]
  refine or_congr ?_ Iff.rfl
  simp only [kills_effect_iff, LkeyEnds]
  constructor
  · rintro ⟨o, ho, m, ha, hm⟩
    exact ⟨m, o, ha, hm, ho⟩
  · rintro ⟨m, o, ha, hm, ho⟩
    exact ⟨o, ho, m, ha, hm⟩

/-- An announcement copies the entry of `lkey_ptr`, and destroys nothing. Kind: L -/
lemma gone_rkey_iff (k : UInt32) :
    Gone s' .mr (s'.rkeyMrShm k).join ↔
      RkeyEnds k s a ∨ (Gone s .mr (s.rkeyMrShm k).join ∧ ¬ RkeyMade k s a) := by
  rw [rkeyMrShm_of_step h]
  by_cases hk : effect s a = .announce k
  · have hkills : ∀ t o, (effect s a).kills ≠ some (t, o) := by simp [hk, Effect.kills]
    have hnone : ¬ ∃ m o, ended a = some (.mr, m) ∧ s.core.map .mr m = some o ∧
        s.rkeyMrShm k = some (some o) := by
      rintro ⟨m, o, ha, hm, -⟩
      exact hkills .mr o (kills_effect_iff.mpr ⟨m, ha, hm⟩)
    simp only [hk, if_true, Option.join_some, RkeyEnds, RkeyMade, hnone, false_or, true_and,
      not_true_eq_false, and_false, or_false, Gone]
    refine exists_congr fun o => and_congr_right fun ho => ?_
    rw [live_of_step h .mr (hi.lkey_lt k o ho)]
    simp [hkills]
  · have hcopy := gone_iff_of_step h (t := .mr) (W := False) (p := (s.rkeyMrShm k).join) nofun
      fun o ho => hi.rkey_lt k o (Option.join_eq_some_iff.mp ho)
    simp only [if_false, not_false_eq_true, and_true] at hcopy
    simp only [hk, if_false, hcopy, RkeyEnds, RkeyMade, false_and, or_false, not_false_eq_true,
      and_true, kills_effect_iff, Option.join_eq_some_iff]
    refine or_congr ?_ Iff.rfl
    constructor
    · rintro ⟨o, ho, m, ha, hm⟩
      exact ⟨m, o, ha, hm, ho⟩
    · rintro ⟨m, o, ha, hm, ho⟩
      exact ⟨o, ho, m, ha, hm⟩

end Steps

/-! ## When an entry leads to a piece that was removed -/

/-- The name of the piece is no longer that of its object: it was unlinked. Kind: D -/
def Removed (s : State) (p : ShmPiece) : Prop := s.shm.bound p.name ≠ some p.obj

/-- Numbers of shared memory objects are below the next one, and a piece in `shm_map` is under its
name. Kind: D -/
structure PieceInv (s : State) : Prop where
  bound_lt : ∀ name o, s.shm.bound name = some o → o < s.shm.nextObj
  named : ∀ name p, s.shm.shmMap name = some (some p) → p.name = name ∧ p.obj < s.shm.nextObj
  shmr_lt : ∀ h p, s.shm.shmrMap h = some p → p.obj < s.shm.nextObj

lemma pieceInv_start {s : State} (h : Start s) : PieceInv s where
  bound_lt := h.shm.bound_lt
  named name p hp := absurd ((h.shm.shmMap name).symm.trans hp) (by simp)
  shmr_lt n p hp := absurd ((h.shm.shmrMap n).symm.trans hp) (by simp)

/-- The piece of a request is the one in `shm_map`, and nothing changes, or one whose name is bound
to its object. Kind: L -/
lemma addShmPiece_eq_some {s : ShmNames.State} {req : ShmNames.RegMr} {mapped : Bool} {p : ShmPiece}
    (hp : (s.addShmPiece req mapped).2 = some p) :
    (req.shmName ≠ "" ∧ s.shmMap req.shmName = some (some p) ∧ (s.addShmPiece req mapped).1 = s) ∨
      (¬ (req.shmName ≠ "" ∧ s.shmMap req.shmName = some (some p)) ∧
        (s.addShmPiece req mapped).1.bound p.name = some p.obj) := by
  unfold ShmNames.State.addShmPiece at hp ⊢
  split at hp
  next hname =>
    obtain ⟨-, hn, -, hb⟩ := ShmNames.openPiece_eq_some hp
    rw [if_pos hname]
    exact .inr ⟨fun h => h.1 hname, hn ▸ hb⟩
  next hname =>
    rw [if_neg hname]
    cases hmap : s.shmMap req.shmName with
    | some sp =>
        rw [ShmNames.addNamedPiece_of_some hmap] at hp ⊢
        exact .inl ⟨hname, congrArg some hp, rfl⟩
    | none =>
        rw [ShmNames.addNamedPiece_of_none hmap] at hp ⊢
        obtain ⟨-, hn, -, hb⟩ := ShmNames.openPiece_eq_some hp
        exact .inr ⟨by simp, hn ▸ hb⟩

/-- A piece is removed after a step exactly when it was before, or the step unlinks its name.
Kind: L -/
lemma removed_iff_of_step {s s' : State} {a : Act} (h : step s a = some s') {p : ShmPiece}
    (hp : p.obj < s.shm.nextObj) :
    Removed s' p ↔ (effect s a).unlinks s = some p.name ∨ Removed s p := by
  have hns := nameStep_of_step h
  by_cases hun : (effect s a).unlinks s = some p.name
  · simp [Removed, hns.unbound p.name hun, hun]
  · rcases hns.kept p.name hun with hsame | ⟨hnone, hnew⟩
    · simp [Removed, hsame, hun]
    · simp only [Removed, hnew, hnone, hun, false_or]
      refine ⟨fun _ => by simp, fun _ heq => ?_⟩
      exact hp.ne (Option.some.inj heq).symm

/-- The names after a registration are those after the request of its piece. Kind: L -/
lemma bound_of_register {s s' : State} {a : Act} (h : step s a = some s') {req : ShmNames.RegMr}
    {mapped : Bool} {keys : MrKeys} (he : effect s a = .register req mapped keys) :
    s'.shm.bound = (s.shm.addShmPiece req mapped).1.bound := by
  obtain ⟨shmr, hshmr⟩ := ShmNames.regMr_fst s.shm req ⟨mapped, true, some keys.handle⟩
  rw [(step_effect h).1, he, Effect.apply, hshmr]

/-- Every step keeps the invariant. Kind: L -/
lemma PieceInv.step {s s' : State} {a : Act} (hi : PieceInv s) (h : step s a = some s') :
    PieceInv s' := by
  have hns := nameStep_of_step h
  have hbound := hns.bound_lt hi.bound_lt
  refine ⟨hbound, fun name p hp => ?_, fun n p hp => ?_⟩
  · cases hmap : s.shm.shmMap name with
    | none =>
        obtain ⟨hname, hb, -⟩ := hns.added name p hmap hp
        exact ⟨hname, hbound name p.obj hb⟩
    | some sp =>
        have hsp : sp = some p := Option.some.inj ((hns.entries name sp hmap).symm.trans hp)
        obtain ⟨hname, hlt⟩ := hi.named name p (hsp ▸ hmap)
        exact ⟨hname, hlt.trans_le hns.nextObj_le⟩
  · have hold : s.shm.shmrMap n = some p → p.obj < s'.shm.nextObj := fun hp =>
      (hi.shmr_lt n p hp).trans_le hns.nextObj_le
    rw [shmrMap_of_step h] at hp
    cases he : effect s a with
    | register req mapped keys =>
        rw [he] at hp
        simp only at hp
        split at hp
        next =>
          rcases addShmPiece_eq_some hp with ⟨-, hcached, -⟩ | ⟨-, hb⟩
          · exact (hi.named _ p hcached).2.trans_le hns.nextObj_le
          · exact hbound p.name p.obj (bound_of_register h he ▸ hb)
        next => exact hold hp
    | deregister m o ok =>
        rw [he] at hp
        simp only at hp
        split at hp
        next => cases hp
        next => exact hold hp
    | _ =>
        rw [he] at hp
        exact hold hp

/-- The name is unlinked while its piece is in `shm_map`. Kind: D -/
def NameEnds (name : String) (s : State) (a : Act) : Prop :=
  (effect s a).unlinks s = some name ∧ ∃ p, s.shm.shmMap name = some (some p)

/-- An MR gets the handle. Kind: D -/
def PieceMade (h : ℕ) (s : State) (a : Act) : Prop :=
  ∃ req mapped keys, effect s a = .register req mapped keys ∧ keys.handle = h ∧ h < mapSize

/-- An MR gets the handle, or loses it. Kind: D -/
def PieceChanged (h : ℕ) (s : State) (a : Act) : Prop :=
  PieceMade h s a ∨ ∃ o ok, effect s a = .deregister h o ok

/-- The name of the piece in `shmr_map` is unlinked for the sake of another object, or an MR gets
the handle with a piece from `shm_map` that was removed. Kind: D -/
def PieceEnds (h : ℕ) (s : State) (a : Act) : Prop :=
  (¬ PieceChanged h s a ∧ ∃ p, s.shm.shmrMap h = some p ∧ (effect s a).unlinks s = some p.name) ∨
    ∃ req mapped keys p, effect s a = .register req mapped keys ∧ keys.handle = h ∧ h < mapSize ∧
      req.shmName ≠ "" ∧ s.shm.shmMap req.shmName = some (some p) ∧ Removed s p

section PieceSteps

variable {s s' : State} {a : Act} (hi : PieceInv s) (h : step s a = some s')
include hi h

/-- `shm_map` keeps its entries, and enters pieces that are there. Kind: L -/
lemma removed_named_iff (name : String) :
    (∃ p, s'.shm.shmMap name = some (some p) ∧ Removed s' p) ↔
      NameEnds name s a ∨ ((∃ p, s.shm.shmMap name = some (some p) ∧ Removed s p) ∧ ¬ False) := by
  have hns := nameStep_of_step h
  constructor
  · rintro ⟨p, hp, hr⟩
    cases hmap : s.shm.shmMap name with
    | none =>
        obtain ⟨rfl, hb, -⟩ := hns.added name p hmap hp
        exact absurd hb hr
    | some sp =>
        cases Option.some.inj ((hns.entries name sp hmap).symm.trans hp)
        obtain ⟨rfl, hlt⟩ := hi.named name p hmap
        rcases (removed_iff_of_step h hlt).mp hr with hun | hold
        · exact .inl ⟨hun, p, hmap⟩
        · exact .inr ⟨⟨p, rfl, hold⟩, nofun⟩
  · rintro (⟨hun, p, hp⟩ | ⟨⟨p, hp, hold⟩, -⟩)
    · obtain ⟨rfl, hlt⟩ := hi.named name p hp
      exact ⟨p, hns.entries _ _ hp, (removed_iff_of_step h hlt).mpr (.inl hun)⟩
    · obtain ⟨rfl, hlt⟩ := hi.named name p hp
      exact ⟨p, hns.entries _ _ hp, (removed_iff_of_step h hlt).mpr (.inr hold)⟩

omit hi in
/-- A handle that is neither given nor taken keeps its piece. Kind: L -/
lemma shmrMap_of_not_changed {n : ℕ} (hn : ¬ PieceChanged n s a) :
    s'.shm.shmrMap n = s.shm.shmrMap n := by
  rw [shmrMap_of_step h]
  cases he : effect s a with
  | register req mapped keys =>
      exact if_neg fun hk => hn (.inl ⟨req, mapped, keys, he, hk.1, hk.2⟩)
  | deregister m o ok =>
      refine if_neg ?_
      rintro rfl
      exact hn (.inr ⟨o, ok, he⟩)
  | _ => rfl

lemma removed_shmr_iff (n : ℕ) :
    (∃ p, s'.shm.shmrMap n = some p ∧ Removed s' p) ↔
      PieceEnds n s a ∨ ((∃ p, s.shm.shmrMap n = some p ∧ Removed s p) ∧ ¬ PieceChanged n s a) := by
  by_cases hn : PieceChanged n s a
  · rcases hn with ⟨req, mapped, keys, he, rfl, hlt⟩ | ⟨o, ok, he⟩
    · -- the entry is the piece of the request, fresh or from `shm_map`
      have hentry : s'.shm.shmrMap keys.handle = (s.shm.addShmPiece req mapped).2 := by
        rw [shmrMap_of_step h, he]
        exact if_pos ⟨rfl, hlt⟩
      have hbound := bound_of_register h he
      constructor
      · rintro ⟨p, hp, hr⟩
        rw [hentry] at hp
        rcases addShmPiece_eq_some hp with ⟨hname, hcached, hsame⟩ | ⟨-, hb⟩
        · refine .inl (.inr ⟨req, mapped, keys, p, he, rfl, hlt, hname, hcached, ?_⟩)
          rwa [Removed, hbound, hsame] at hr
        · exact absurd (hbound ▸ hb) hr
      · rintro ((⟨hno, -⟩ | ⟨req', mapped', keys', p, he', -, -, hname, hcached, hr⟩) | ⟨-, hno⟩)
        · exact absurd (.inl ⟨req, mapped, keys, he, rfl, hlt⟩) hno
        · cases he.symm.trans he'
          have hadd : s.shm.addShmPiece req mapped = (s.shm, some p) := by
            rw [ShmNames.State.addShmPiece, if_neg hname, ShmNames.addNamedPiece_of_some hcached]
          refine ⟨p, by rw [hentry, hadd], ?_⟩
          rwa [Removed, hbound, hadd]
        · exact absurd (.inl ⟨req, mapped, keys, he, rfl, hlt⟩) hno
    · have hentry : s'.shm.shmrMap n = none := by
        rw [shmrMap_of_step h, he]
        exact if_pos rfl
      simp [hentry, PieceEnds, PieceChanged, he]
  · rw [shmrMap_of_not_changed h hn]
    have hmade : ¬ PieceMade n s a := fun hm => hn (.inl hm)
    constructor
    · rintro ⟨p, hp, hr⟩
      rcases (removed_iff_of_step h (hi.shmr_lt n p hp)).mp hr with hun | hold
      · exact .inl (.inl ⟨hn, p, hp, hun⟩)
      · exact .inr ⟨⟨p, hp, hold⟩, hn⟩
    · rintro ((⟨-, p, hp, hun⟩ | ⟨req, mapped, keys, p, he, hh, hlt, -⟩) | ⟨⟨p, hp, hold⟩, -⟩)
      · exact ⟨p, hp, (removed_iff_of_step h (hi.shmr_lt n p hp)).mpr (.inl hun)⟩
      · exact absurd ⟨req, mapped, keys, he, hh, hlt⟩ hmade
      · exact ⟨p, hp, (removed_iff_of_step h (hi.shmr_lt n p hp)).mpr (.inr hold)⟩

end PieceSteps

/-! ## No table outlives its objects -/

/-- No table through which requests are resolved leads to an object that was destroyed. Kind: D -/
structure NoAlias (s : State) : Prop where
  arrays : ∀ t h, ¬ Gone s t (s.core.map t h)
  shmrMap : ∀ h p, s.shm.shmrMap h = some p → ¬ Removed s p
  lkeyPtr : ∀ k, ¬ Gone s .mr (s.lkeyPtr k)
  rkeyMrShm : ∀ k, ¬ Gone s .mr (s.rkeyMrShm k).join
  shmMap : ∀ name p, s.shm.shmMap name = some (some p) → ¬ Removed s p
  tokenbucket : ∀ h, ¬ Gone s .qp (s.tokenbucket h)

/-- What has to be the case of the run. Kind: D -/
structure Renewed (s₀ : State) (as : List Act) : Prop where
  ahs : ∀ h, ¬ Since step (AhEnds h) (AhMade h) s₀ as
  qps : ∀ h, ¬ Since step (QpEnds h) (QpMade h) s₀ as
  lkeys : ∀ k, ¬ Since step (LkeyEnds k) (LkeyMade k) s₀ as
  rkeys : ∀ k, ¬ Since step (RkeyEnds k) (RkeyMade k) s₀ as
  names : ∀ name, ¬ Since step (NameEnds name) (fun _ _ => False) s₀ as
  pieces : ∀ h, ¬ Since step (PieceEnds h) (PieceChanged h) s₀ as

/-- **Aliases.** After every run from the start, no table leads to an object that was destroyed
exactly when everything that ended has been renewed. Kind: P -/
theorem noAlias_iff_renewed {s₀ s : State} {as : List Act} (h₀ : Start s₀)
    (hrun : exec step s₀ as = some s) : NoAlias s ↔ Renewed s₀ as := by
  have hkey : ∀ s a s', KeyInv s → step s a = some s' → KeyInv s' := fun _ _ _ hi hs => hi.step hs
  have hpiece : ∀ s a s', PieceInv s → step s a = some s' → PieceInv s' :=
    fun _ _ _ hi hs => hi.step hs
  have hk₀ := keyInv_start h₀
  have hp₀ := pieceInv_start h₀
  have hah := fun n => iff_since_of_step hkey (fun _ _ _ hi hs => gone_ah_iff hi hs n) hk₀
    (by simp [Gone, h₀.map]) hrun
  have hqp := fun n => iff_since_of_step hkey (fun _ _ _ hi hs => gone_bucket_iff hi hs n) hk₀
    (by simp [Gone, h₀.tokenbucket]) hrun
  have hlkey := fun k => iff_since_of_step hkey (fun _ _ _ hi hs => gone_lkey_iff hi hs k) hk₀
    (by simp [Gone, h₀.lkeyPtr]) hrun
  have hrkey := fun k => iff_since_of_step hkey (fun _ _ _ hi hs => gone_rkey_iff hi hs k) hk₀
    (by simp [Gone, h₀.rkeyMrShm]) hrun
  have hname := fun name => iff_since_of_step hpiece
    (fun _ _ _ hi hs => removed_named_iff hi hs name) hp₀ (by simp [h₀.shm.shmMap]) hrun
  have hshmr := fun n => iff_since_of_step hpiece
    (fun _ _ _ hi hs => removed_shmr_iff hi hs n) hp₀ (by simp [h₀.shm.shmrMap]) hrun
  constructor
  · intro hno
    refine ⟨fun n => ?_, fun n => ?_, fun k => ?_, fun k => ?_, fun name => ?_, fun n => ?_⟩
    · exact (hah n).not.mp (hno.arrays .ah n)
    · exact (hqp n).not.mp (hno.tokenbucket n)
    · exact (hlkey k).not.mp (hno.lkeyPtr k)
    · exact (hrkey k).not.mp (hno.rkeyMrShm k)
    · exact (hname name).not.mp fun ⟨p, hp, hr⟩ => hno.shmMap name p hp hr
    · exact (hshmr n).not.mp fun ⟨p, hp, hr⟩ => hno.shmrMap n p hp hr
  · intro hren
    refine ⟨fun t n => ?_, fun n p hp hr => ?_, fun k => ?_, fun k => ?_, fun name p hp hr => ?_,
      fun n => ?_⟩
    · by_cases ht : t = .ah
      · subst ht
        exact (hah n).not.mpr (hren.ahs n)
      · rintro ⟨o, ho, hl⟩
        rw [(inv_of_run h₀ hrun).core.live t n o ht ho] at hl
        exact absurd hl (by simp)
    · exact hren.pieces n ((hshmr n).mp ⟨p, hp, hr⟩)
    · exact (hlkey k).not.mpr (hren.lkeys k)
    · exact (hrkey k).not.mpr (hren.rkeys k)
    · exact hren.names name ((hname name).mp ⟨p, hp, hr⟩)
    · exact (hqp n).not.mpr (hren.qps n)

/-- The history of the address handle. Kind: C -/
theorem noAlias_iff_renewed_ended_ah : NoAlias endedAh ↔ Renewed State.empty endedAhRun :=
  noAlias_iff_renewed start_empty exec_endedAhRun

/-- `ah_map` still has the address handle that was destroyed. Kind: C -/
theorem noAlias_fails_ended_ah :
    Start State.empty ∧ exec step State.empty endedAhRun = some endedAh ∧
      endedAh.core.map .ah 5 = some 1 ∧ endedAh.core.live .ah 1 = false ∧ ¬ NoAlias endedAh :=
  ⟨start_empty, exec_endedAhRun, rfl, rfl, fun hno => hno.arrays .ah 5 ⟨1, rfl, rfl⟩⟩

end FreeFlow.Router.Objects
