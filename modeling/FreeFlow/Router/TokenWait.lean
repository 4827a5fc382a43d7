import FreeFlow.Router.TokenBucket

/-!
# Waiting for tokens, and the 64-bit arithmetic of `consume`

The socket path of `IBV_POST_SEND` calls `consume` for every element until it succeeds, with
`lkey_ptr_mtx` held. Whether it ever does is a matter of numbers: once the clock is more than a
burst ahead of `time_`, an element is admitted exactly when its time is at most a burst. All of
this is computed in 64 bits.

* `consumeInt` — the algorithm over the integers; `Agrees` compares one call with it.
* `time_le_of_exec` — in every state that calls of `consume` can lead to, regular or not, `time_`
  is not ahead of the clock.
* `consume_agrees_iff` — in such a state a call agrees with the integers exactly when nothing wraps
  around, or wraps around to something that is refused like the true value.
* `eventuallyAdmitted_iff` — an element is admitted from some clock value on, and the waiting loop
  ends, exactly when its time is at most a burst (or wraps around before the clock does).
* `wait_never_ends` — at the default rate 4000001 bytes are never admitted.

Source: `tokenbucket.h` `TokenBucket::consume`; `ffrouter.cpp` `HandleRequest` (`IBV_POST_SEND`).
-/

namespace FreeFlow.Router.Metering

open FreeFlow.Found

/-! ## States that can be reached -/

/-- A thread is not ahead of the clock, and neither is what it may store. Kind: D -/
def CallerBehind (clock : ℕ) : Caller → Prop
  | .idle => True
  | .timed us _ => us ≤ clock
  | .trying us _ _ newTime => us ≤ clock ∧ newTime.toNat ≤ us * 5000

/-- `time_` and all threads are behind the clock. Kind: D -/
def Behind (s : State) : Prop :=
  s.tb.time.toNat ≤ s.clock * 5000 ∧ ∀ i, CallerBehind s.clock (s.caller i)

/-- A later clock reading. Kind: L -/
lemma CallerBehind.mono {clock clock' : ℕ} {c : Caller} (h : CallerBehind clock c)
    (hle : clock ≤ clock') : CallerBehind clock' c := by
  cases c with
  | idle => trivial
  | timed us len => exact le_trans h hle
  | trying us len old new => exact ⟨h.1.trans hle, h.2⟩

/-- A thread arrives at the exchange: what it may store has passed the test against the clock.
Kind: L -/
lemma behind_tryFrom {s : State} (hs : Behind s) {i us : ℕ} {len : UInt32} {base : UInt64}
    (hus : us ≤ s.clock) : Behind (s.tryFrom i us len base) := by
  refine ⟨hs.1, (Function.forall_update_iff _ fun _ => CallerBehind s.clock).mpr
    ⟨?_, fun j _ => hs.2 j⟩⟩
  rcases hatt : attempt (ticks us) base (timeNeeded s.tb len) with _ | newTime
  · trivial
  · exact ⟨hus, (attempt_eq_some_iff.mp hatt).2.trans (ticks_toNat_le us)⟩

/-- **Every move** keeps `time_` behind the clock. Kind: P -/
lemma behind_step {s s' : State} {a : Act} (hs : Behind s) (h : step s a = some s') :
    Behind s' := by
  rcases step_cases h with ⟨i, us, len, -, -, hle, rfl⟩ | ⟨i, us, len, -, hc, rfl⟩ |
    ⟨i, us, len, old, new, -, hc, -, rfl⟩ | ⟨i, sp, us, len, old, new, -, hc, -, rfl⟩
  · exact ⟨hs.1.trans (Nat.mul_le_mul_right 5000 hle),
      (Function.forall_update_iff _ fun _ => CallerBehind us).mpr
        ⟨le_rfl, fun j _ => (hs.2 j).mono hle⟩⟩
  · have hi : CallerBehind s.clock (.timed us len) := hc ▸ hs.2 i
    exact behind_tryFrom hs hi
  · have hi : CallerBehind s.clock (.trying us len old new) := hc ▸ hs.2 i
    exact ⟨hi.2.trans (Nat.mul_le_mul_right 5000 hi.1),
      (Function.forall_update_iff _ fun _ => CallerBehind s.clock).mpr
        ⟨trivial, fun j _ => hs.2 j⟩⟩
  · have hi : CallerBehind s.clock (.trying us len old new) := hc ▸ hs.2 i
    exact behind_tryFrom hs hi.1

/-- **After any calls** on a new bucket `time_` is not ahead of the clock. Kind: P -/
theorem time_le_of_exec {tb : TokenBucket} (htb : tb.time = 0) {as : List Act} {s : State}
    (hrun : exec step (State.start tb) as = some s) : s.tb.time.toNat ≤ s.clock * 5000 := by
  have hstart : Behind (State.start tb) := ⟨by simp [State.start, htb], fun _ => trivial⟩
  exact (exec_invariant (fun _ _ _ => behind_step) hstart hrun).1

/-! ## One call in numbers -/

/-- The clamp while the clock is not past one burst: `minTime` wraps around and wins. Kind: L -/
lemma clamp_toNat_of_lt {tb : TokenBucket} {now : UInt64}
    (h : now.toNat < tb.timePerBurst.toNat)
    (htime : tb.time.toNat < 2 ^ 64 + now.toNat - tb.timePerBurst.toNat) :
    (clamp tb now).toNat = 2 ^ 64 + now.toNat - tb.timePerBurst.toNat := by
  have hlt := tb.timePerBurst.toNat_lt
  have hmin : (now - tb.timePerBurst).toNat = 2 ^ 64 + now.toNat - tb.timePerBurst.toNat := by
    rw [UInt64.toNat_sub]
    omega
  simp only [clamp, UInt64.lt_iff_toNat_lt, hmin]
  split <;> omega

/-- What `consume` stores, if it succeeds. Kind: L -/
lemma consume_map_time (tb : TokenBucket) (now : UInt64) (len : UInt32) :
    (tb.consume now len.toUInt64).map (·.time.toNat) =
      if ((clamp tb now).toNat + len.toNat * tb.timePerToken.toNat) % 2 ^ 64 ≤ now.toNat then
        some (((clamp tb now).toNat + len.toNat * tb.timePerToken.toNat) % 2 ^ 64)
      else none := by
  have hsum : (clamp tb now + timeNeeded tb len).toNat =
      ((clamp tb now).toNat + len.toNat * tb.timePerToken.toNat) % 2 ^ 64 := by
    rw [UInt64.toNat_add, timeNeeded_toNat, Nat.add_mod_mod]
  rw [consume_eq_attempt, attempt, ← hsum]
  by_cases h : now < clamp tb now + timeNeeded tb len
  · rw [if_pos h, if_neg (not_le.mpr h)]
    rfl
  · rw [if_neg h, if_pos (not_lt.mp h)]
    rfl

/-- When `consume` succeeds. Kind: L -/
lemma consume_isSome_iff (tb : TokenBucket) (now : UInt64) (len : UInt32) :
    (tb.consume now len.toUInt64).isSome = true ↔
      ((clamp tb now).toNat + len.toNat * tb.timePerToken.toNat) % 2 ^ 64 ≤ now.toNat := by
  rw [← Option.isSome_map (f := (·.time.toNat)), consume_map_time]
  split <;> simp_all

/-! ## The integers -/

/-- `TokenBucket::consume` over the integers: the new `time_`. Kind: D -/
def consumeInt (time timePerToken timePerBurst now tokens : ℤ) : Option ℤ :=
  let timeNeeded := tokens * timePerToken
  let minTime := now - timePerBurst
  let newTime := if time < minTime then minTime else time
  let newTime := newTime + timeNeeded
  if now < newTime then none else some newTime

/-- A call at `us` microseconds has the result and the new `time_` that it has over the integers.
Kind: D -/
def Agrees (tb : TokenBucket) (us : ℕ) (len : UInt32) : Prop :=
  (tb.consume (ticks us) len.toUInt64).map (fun tb' => (tb'.time.toNat : ℤ)) =
    consumeInt tb.time.toNat tb.timePerToken.toNat tb.timePerBurst.toNat ((us * 5000 : ℕ) : ℤ)
      len.toNat

/-- Nothing wraps around, or it wraps around to a time in the future and the true time is in the
future, too. Before the clock is past one burst, `minTime` always wraps around. Kind: D -/
def NoWrap (tb : TokenBucket) (us : ℕ) (len : UInt32) : Prop :=
  let now := us * 5000
  let timeNeeded := len.toNat * tb.timePerToken.toNat
  if tb.timePerBurst.toNat ≤ now then
    let newTime := max tb.time.toNat (now - tb.timePerBurst.toNat) + timeNeeded
    newTime < 2 ^ 64 ∨ now < newTime % 2 ^ 64
  else
    now < tb.time.toNat + timeNeeded ∧
      now < (2 ^ 64 + now - tb.timePerBurst.toNat + timeNeeded) % 2 ^ 64

instance (tb : TokenBucket) (us : ℕ) (len : UInt32) : Decidable (NoWrap tb us len) := by
  unfold NoWrap
  infer_instance

/-- Two results of the same shape are equal. Kind: L -/
lemma ite_some_eq_iff {p q : Prop} [Decidable p] [Decidable q] {x y : ℤ} :
    (if p then some x else none) = (if q then none else some y) ↔
      (p ∧ ¬ q ∧ x = y) ∨ (¬ p ∧ q) := by
  by_cases hp : p <;> by_cases hq : q <;> simp [hp, hq]

/-- **One call against the integers**, for a `time_` that is not ahead of the clock. Kind: P -/
lemma agrees_iff_noWrap {tb : TokenBucket} {us : ℕ} {len : UInt32} (hus : us * 5000 < 2 ^ 63)
    (htime : tb.time.toNat ≤ us * 5000) (hburst : tb.timePerBurst.toNat ≤ 2 ^ 63) :
    Agrees tb us len ↔ NoWrap tb us len := by
  have hticks : (ticks us).toNat = us * 5000 := ticks_toNat (hus.trans (by norm_num))
  have hmap : (tb.consume (ticks us) len.toUInt64).map (fun tb' => (tb'.time.toNat : ℤ)) =
      ((tb.consume (ticks us) len.toUInt64).map (·.time.toNat)).map ((↑) : ℕ → ℤ) := by
    rw [Option.map_map]
    rfl
  simp only [Agrees, NoWrap, consumeInt, hmap, consume_map_time, hticks,
    apply_ite (Option.map ((↑) : ℕ → ℤ)), Option.map_some, Option.map_none, ite_some_eq_iff]
  rw [← Nat.cast_mul]
  generalize len.toNat * tb.timePerToken.toNat = needed
  by_cases hpast : tb.timePerBurst.toNat ≤ us * 5000
  · -- the clamp does not wrap around, so only the last sum can
    have hclamp : (clamp tb (ticks us)).toNat =
        max tb.time.toNat (us * 5000 - tb.timePerBurst.toNat) := by
      rw [clamp_toNat (hticks ▸ hpast), hticks]
    rw [if_pos hpast, hclamp]
    split <;> omega
  · have hclamp : (clamp tb (ticks us)).toNat = 2 ^ 64 + us * 5000 - tb.timePerBurst.toNat := by
      rw [clamp_toNat_of_lt (by omega) (by omega), hticks]
    have hmin : ¬ (tb.time.toNat : ℤ) < (us * 5000 : ℕ) - tb.timePerBurst.toNat := by omega
    rw [if_neg hpast, hclamp, if_neg hmin]
    omega

/-- The constructor's numbers for a rate of at least one byte per second. Kind: L -/
lemma burst_le_of_new {rate : UInt64} {tb : TokenBucket}
    (hnew : TokenBucket.new rate burstPerQp = some tb) :
    tb.time = 0 ∧ tb.timePerBurst.toNat = 4000000 * tb.timePerToken.toNat ∧
      tb.timePerBurst.toNat ≤ 20000000000000000 := by
  obtain ⟨-, htime, htoken, hburst⟩ := TokenBucket.new_eq_some_iff.mp hnew
  have hle : 5000000000 / rate.toNat ≤ 5000000000 := Nat.div_le_self _ _
  exact ⟨htime, by rw [htoken, hburst], by omega⟩

/-- **The arithmetic of `consume`**: after any calls on a bucket of any rate, a call at any later
clock value (before the product with 5000 leaves `int64_t`) has the result and the new `time_` it
has over the integers exactly when it does not wrap around to a different decision. Kind: C -/
theorem consume_agrees_iff {rate : UInt64} {tb : TokenBucket}
    (hnew : TokenBucket.new rate burstPerQp = some tb) {as : List Act} {s : State}
    (hrun : exec step (State.start tb) as = some s) {us : ℕ} (hclock : s.clock ≤ us)
    (hus : us * 5000 < 2 ^ 63) (len : UInt32) :
    Agrees s.tb us len ↔ NoWrap s.tb us len := by
  obtain ⟨htime, -, hburst⟩ := burst_le_of_new hnew
  refine agrees_iff_noWrap hus ?_ ?_
  · exact (time_le_of_exec htime hrun).trans (Nat.mul_le_mul_right 5000 hclock)
  · rw [(constants_of_exec hrun).2]
    omega

/-- A bucket of one megabyte per second, 100 seconds after boot, and a call for 1500 bytes.
Kind: C -/
theorem agrees_megabyte :
    TokenBucket.new 1000000 burstPerQp = some ⟨0, 5000, 20000000000⟩ ∧
      Agrees ⟨0, 5000, 20000000000⟩ 100000000 1500 :=
  ⟨by decide, (@consume_agrees_iff 1000000 _ (by decide) [] _ rfl 100000000 (Nat.zero_le _)
    (by norm_num) 1500).mpr (by decide)⟩

/-- **Three ways to wrap around.** A bucket of 1000 bytes per second admits a whole burst half an
hour after boot, when `minTime` is below zero; a bucket of one byte per second admits 3689348815
bytes after 50 days, their time being 2^64 and a little more; and it admits 3600000000 bytes after
1200 days, when the sum with that time wraps around. Over the integers all three are refused.
Kind: C -/
theorem consume_wraps :
    (TokenBucket.new 1000 burstPerQp = some ⟨0, 5000000, 20000000000000⟩ ∧
      ((⟨0, 5000000, 20000000000000⟩ : TokenBucket).consume (ticks 1800000000)
        (4000000 : UInt32).toUInt64).isSome = true ∧
      consumeInt 0 5000000 20000000000000 (1800000000 * 5000) 4000000 = none) ∧
    TokenBucket.new 1 burstPerQp = some ⟨0, 5000000000, 20000000000000000⟩ ∧
      (((⟨0, 5000000000, 20000000000000000⟩ : TokenBucket).consume (ticks 4320000000000)
        (3689348815 : UInt32).toUInt64).isSome = true ∧
      consumeInt 0 5000000000 20000000000000000 (4320000000000 * 5000) 3689348815 = none) ∧
      ((⟨0, 5000000000, 20000000000000000⟩ : TokenBucket).consume (ticks 103680000000000)
        (3600000000 : UInt32).toUInt64).isSome = true ∧
      consumeInt 0 5000000000 20000000000000000 (103680000000000 * 5000) 3600000000 = none := by
  decide

/-! ## Waiting -/

/-- The clock value in microseconds times 5000 is an `int64_t`. Kind: D -/
def InRange (us : ℕ) : Prop := us * 5000 < 2 ^ 63

/-- From some clock value on, not before `c`, `consume(len)` succeeds. Kind: D -/
def EventuallyAdmitted (tb : TokenBucket) (c : ℕ) (len : UInt32) : Prop :=
  ∃ c₀, c ≤ c₀ ∧ InRange c₀ ∧
    ∀ us, c₀ ≤ us → InRange us → (tb.consume (ticks us) len.toUInt64).isSome = true

/-- The waiting loop ends when its clock readings get past some value. Kind: D -/
def WaitEnds (tb : TokenBucket) (c : ℕ) (len : UInt32) : Prop :=
  ∃ c₀, c ≤ c₀ ∧ InRange c₀ ∧
    ∀ clk : ℕ → ℕ, (∀ k, c ≤ clk k ∧ InRange (clk k)) → Monotone clk → (∃ k, c₀ ≤ clk k) →
      ∃ fuel, (waitTokens (fun k => ticks (clk k)) len fuel (tb, 0)).isSome = true

/-- The last clock value in range, in ticks. Kind: D -/
def lastTick : ℕ := (2 ^ 63 - 1) / 5000 * 5000

/-- **The condition**: the time of the tokens, which wraps around at 2^64, is at most a burst; or so
long that its sum with the clock wraps around before the clock leaves its range. Kind: D -/
def Admissible (tb : TokenBucket) (len : UInt32) : Prop :=
  let timeNeeded := len.toNat * tb.timePerToken.toNat % 2 ^ 64
  timeNeeded ≤ tb.timePerBurst.toNat ∨ 2 ^ 64 + tb.timePerBurst.toNat ≤ timeNeeded + lastTick

instance (tb : TokenBucket) (len : UInt32) : Decidable (Admissible tb len) :=
  inferInstanceAs (Decidable (_ ∨ _))

/-- The loop ends exactly when one of its calls succeeds. Kind: L -/
lemma waitTokens_ends_iff (clk : ℕ → UInt64) (len : UInt32) (tb : TokenBucket) (k : ℕ) :
    (∃ fuel, (waitTokens clk len fuel (tb, k)).isSome = true) ↔
      ∃ j, k ≤ j ∧ (tb.consume (clk j) len.toUInt64).isSome = true := by
  constructor
  · rintro ⟨fuel, h⟩
    induction fuel generalizing k with
    | zero => cases h
    | succ fuel ih =>
        rcases hc : tb.consume (clk k) len.toUInt64 with _ | tb'
        · rw [waitTokens, hc] at h
          obtain ⟨j, hj, hsome⟩ := ih (k + 1) h
          exact ⟨j, by omega, hsome⟩
        · exact ⟨k, le_rfl, by rw [hc]; rfl⟩
  · rintro ⟨j, hj, h⟩
    obtain ⟨d, rfl⟩ := Nat.exists_eq_add_of_le hj
    induction d generalizing k with
    | zero =>
        obtain ⟨tb', hc⟩ := Option.isSome_iff_exists.mp h
        refine ⟨1, ?_⟩
        rw [Nat.add_zero] at hc
        rw [waitTokens, hc]
        rfl
    | succ d ih =>
        rcases hc : tb.consume (clk k) len.toUInt64 with _ | tb'
        · obtain ⟨fuel, hfuel⟩ := ih (k + 1) (by omega) (by rwa [Nat.add_assoc, Nat.add_comm 1])
          refine ⟨fuel + 1, ?_⟩
          rw [waitTokens, hc]
          exact hfuel
        · refine ⟨1, ?_⟩
          rw [waitTokens, hc]
          rfl

/-- Waiting is about the calls: the loop ends once the clock is far enough exactly when the calls
succeed from some clock value on. Kind: L -/
lemma waitEnds_iff (tb : TokenBucket) (c : ℕ) (len : UInt32) :
    WaitEnds tb c len ↔ EventuallyAdmitted tb c len := by
  constructor
  · rintro ⟨c₀, hc₀, hrange, hends⟩
    refine ⟨c₀, hc₀, hrange, fun us hus husRange => ?_⟩
    -- a clock that stands still at `us`
    obtain ⟨fuel, hfuel⟩ := hends (fun _ => us) (fun _ => ⟨hc₀.trans hus, husRange⟩)
      monotone_const ⟨0, hus⟩
    obtain ⟨j, -, hsome⟩ := (waitTokens_ends_iff _ len tb 0).mp ⟨fuel, hfuel⟩
    exact hsome
  · rintro ⟨c₀, hc₀, hrange, hsucc⟩
    refine ⟨c₀, hc₀, hrange, fun clk hclk _ ⟨k, hk⟩ => ?_⟩
    exact (waitTokens_ends_iff _ len tb 0).mpr ⟨k, Nat.zero_le k, hsucc _ hk (hclk k).2⟩

/-- A call once the clock is a burst ahead of `time_`: the sum starts one burst before the clock.
Kind: L -/
lemma consume_isSome_iff_of_ahead {tb : TokenBucket} {us : ℕ} {len : UInt32} (hus : InRange us)
    (hahead : tb.time.toNat + tb.timePerBurst.toNat ≤ us * 5000) :
    (tb.consume (ticks us) len.toUInt64).isSome = true ↔
      len.toNat * tb.timePerToken.toNat % 2 ^ 64 ≤ tb.timePerBurst.toNat ∨
        2 ^ 64 + tb.timePerBurst.toNat ≤
          len.toNat * tb.timePerToken.toNat % 2 ^ 64 + us * 5000 := by
  have hticks : (ticks us).toNat = us * 5000 := ticks_toNat (hus.trans (by norm_num))
  have hclamp : (clamp tb (ticks us)).toNat = us * 5000 - tb.timePerBurst.toNat := by
    rw [clamp_toNat (by omega), hticks]
    omega
  unfold InRange at hus
  rw [consume_isSome_iff, hclamp, hticks]
  generalize len.toNat * tb.timePerToken.toNat = needed
  omega

/-- **An element is admitted in the end** exactly when it is admissible, if the clock has room for
one more burst. Kind: P -/
lemma eventuallyAdmitted_iff_admissible {tb : TokenBucket} {c : ℕ} {len : UInt32}
    (htime : tb.time.toNat ≤ c * 5000)
    (hroom : c * 5000 + tb.timePerBurst.toNat + 5000 < 2 ^ 63) :
    EventuallyAdmitted tb c len ↔ Admissible tb len := by
  constructor
  · rintro ⟨c₀, -, hrange, hsucc⟩
    -- look at the last clock value in range
    have hlast : InRange ((2 ^ 63 - 1) / 5000) := by unfold InRange; omega
    have hc₀ : c₀ ≤ (2 ^ 63 - 1) / 5000 := by unfold InRange at hrange; omega
    have hahead : tb.time.toNat + tb.timePerBurst.toNat ≤ (2 ^ 63 - 1) / 5000 * 5000 := by omega
    exact (consume_isSome_iff_of_ahead hlast hahead).mp (hsucc _ hc₀ hlast)
  · rintro (hle | hwrap)
    · refine ⟨c + tb.timePerBurst.toNat / 5000 + 1, by omega, by unfold InRange; omega, ?_⟩
      intro us hus hrange
      exact (consume_isSome_iff_of_ahead hrange (by omega)).mpr (.inl hle)
    · refine ⟨(2 ^ 63 - 1) / 5000, by omega, by unfold InRange; omega, fun us hus hrange => ?_⟩
      have heq : us = (2 ^ 63 - 1) / 5000 := by unfold InRange at hrange; omega
      subst heq
      exact (consume_isSome_iff_of_ahead hrange (by omega)).mpr (.inr hwrap)

/-- **Every send is admitted in the end, and the waiting loop ends**, after any calls on a bucket of
any rate, exactly when it is admissible: in particular when it is not longer than `BURST_PER_QP`.
The clock is assumed to have room for one more burst before it leaves its range. Kind: C -/
theorem eventuallyAdmitted_iff {rate : UInt64} {tb : TokenBucket}
    (hnew : TokenBucket.new rate burstPerQp = some tb) {as : List Act} {s : State}
    (hrun : exec step (State.start tb) as = some s)
    (hroom : s.clock * 5000 + tb.timePerBurst.toNat + 5000 < 2 ^ 63) (len : UInt32) :
    (EventuallyAdmitted s.tb s.clock len ↔ Admissible tb len) ∧
      (WaitEnds s.tb s.clock len ↔ Admissible tb len) ∧
      (len.toNat ≤ burstPerQp.toNat → Admissible tb len) := by
  obtain ⟨htime, hburst, hle⟩ := burst_le_of_new hnew
  obtain ⟨hsame, hsame'⟩ := constants_of_exec hrun
  have hadm : Admissible s.tb len ↔ Admissible tb len := by
    unfold Admissible
    rw [hsame, hsame']
  have hev : EventuallyAdmitted s.tb s.clock len ↔ Admissible tb len := by
    rw [← hadm]
    exact eventuallyAdmitted_iff_admissible (time_le_of_exec htime hrun) (hsame' ▸ hroom)
  refine ⟨hev, (waitEnds_iff _ _ _).trans hev, fun hlen => .inl ?_⟩
  -- the product of a length up to the burst does not wrap around
  have hmul : len.toNat * tb.timePerToken.toNat ≤ 4000000 * tb.timePerToken.toNat :=
    Nat.mul_le_mul_right _ hlen
  rw [Nat.mod_eq_of_lt (by omega), hburst]
  exact hmul

/-- The default bucket, and an element of one burst. Kind: C -/
theorem eventuallyAdmitted_default :
    createBucket none = some ⟨0, 1, 4000000⟩ ∧ EventuallyAdmitted ⟨0, 1, 4000000⟩ 0 4000000 :=
  ⟨by decide, (@eventuallyAdmitted_iff maxQpRateLimit ⟨0, 1, 4000000⟩ (by decide) [] _ rfl
    (by decide) 4000000).1.mpr (by decide)⟩

/-- An element whose time is more than a burst is refused at every clock value, as long as the sum
with its time does not wrap around. Kind: L -/
lemma consume_eq_none_of_lt {tb : TokenBucket} {us : ℕ} {len : UInt32} (hus : InRange us)
    (htime : tb.time.toNat ≤ us * 5000)
    (hlong : tb.timePerBurst.toNat < len.toNat * tb.timePerToken.toNat)
    (hsmall : len.toNat * tb.timePerToken.toNat < 2 ^ 63) :
    tb.consume (ticks us) len.toUInt64 = none := by
  have hticks : (ticks us).toNat = us * 5000 := ticks_toNat (hus.trans (by norm_num))
  unfold InRange at hus
  rw [← Option.not_isSome_iff_eq_none, consume_isSome_iff, hticks]
  by_cases hpast : tb.timePerBurst.toNat ≤ us * 5000
  · have hclamp : (clamp tb (ticks us)).toNat =
        max tb.time.toNat (us * 5000 - tb.timePerBurst.toNat) := by
      rw [clamp_toNat (hticks ▸ hpast), hticks]
    rw [hclamp]
    omega
  · have hclamp : (clamp tb (ticks us)).toNat = 2 ^ 64 + us * 5000 - tb.timePerBurst.toNat := by
      rw [clamp_toNat_of_lt (by omega) (by omega), hticks]
    rw [hclamp]
    omega

/-- **4000001 bytes at the default rate** are admitted at no clock value, and the loop that waits
for them does not end, whatever its clock readings are. Kind: C -/
theorem wait_never_ends :
    createBucket none = some ⟨0, 1, 4000000⟩ ∧
      (¬ ∃ us, InRange us ∧
        ((⟨0, 1, 4000000⟩ : TokenBucket).consume (ticks us)
          (4000001 : UInt32).toUInt64).isSome = true) ∧
      ¬ ∃ (clk : ℕ → ℕ) (fuel : ℕ), (∀ k, InRange (clk k)) ∧
        (waitTokens (fun k => ticks (clk k)) 4000001 fuel (⟨0, 1, 4000000⟩, 0)).isSome = true := by
  have hnone : ∀ us, InRange us → (⟨0, 1, 4000000⟩ : TokenBucket).consume (ticks us)
      (4000001 : UInt32).toUInt64 = none := fun us hus =>
    consume_eq_none_of_lt hus (Nat.zero_le _) (by decide) (by decide)
  refine ⟨by decide, ?_, ?_⟩
  · rintro ⟨us, hus, hsome⟩
    rw [hnone us hus] at hsome
    cases hsome
  · rintro ⟨clk, fuel, hclk, hends⟩
    obtain ⟨j, -, hsome⟩ := (waitTokens_ends_iff _ _ _ _).mp ⟨fuel, hends⟩
    rw [hnone _ (hclk j)] at hsome
    cases hsome

end FreeFlow.Router.Metering
