import FreeFlow.Found.Meter
import FreeFlow.Found.Run
import FreeFlow.Router.PostSend

/-!
# The token bucket of a QP

`IBV_CREATE_QP` gives every QP a bucket. Its rate is the number of bits per second in the
environment variable `RATE_LIMIT_<client>`, divided by 8, or `MAX_QP_RATE_LIMIT`; the handler
threads of a client call `consume` on it, several of them at the same time.

`consume` reads the clock, then `time_`, and then tries to exchange the `time_` it read for a later
one. When the exchange fails, because another thread was faster or for no reason
(`compare_exchange_weak`), it goes on from the `time_` it finds, without the clamp to `minTime`.

* `TokenBucket.new`, `createBucket` — the constructor, and the bucket of a new QP.
* `State`, `Act`, `step` — threads in `consume`; `exec_call` says that a call that nobody interrupts
  is `TokenBucket.consume`.
* `Regular` — the condition on a run: the clock is past one burst, nothing leaves 64 bits, and a
  failed exchange finds a `time_` that is not older than the clamp.
* `Metered` — what holds in a regular run: the admissions are a chain of `Found.Meter`.
* `rateLaw_iff` — the rate limit holds in all regular runs exactly for the limits whose time per
  token is not rounded down too far.

Source: `tokenbucket.h`; `ffrouter.cpp` `HandleRequest` (`IBV_CREATE_QP`).
-/

namespace FreeFlow.Router

open FreeFlow.Found

/-! ## The constructor -/

/-- `MAX_QP_RATE_LIMIT`, in bytes. Source: `tokenbucket.h`. Kind: D -/
def maxQpRateLimit : UInt64 := 5000000000

/-- `BURST_PER_QP`, in bytes. Source: `tokenbucket.h`. Kind: D -/
def burstPerQp : UInt64 := 4000000

/-- `TokenBucket::TokenBucket(rate, burstSize)`; `none` is the division by zero.
Source: `tokenbucket.h`
Kind: D -/
def TokenBucket.new (rate burstSize : UInt64) : Option TokenBucket :=
  if rate = 0 then none
  else
    let timePerToken := 5000000000 / rate
    some { time := 0, timePerToken := timePerToken, timePerBurst := burstSize * timePerToken }

/-- The bucket of a new QP; `rateEnv` is the number that `RATE_LIMIT_<client>` holds, if it is set.
Source: `ffrouter.cpp` `HandleRequest` (`IBV_CREATE_QP`)
Kind: D -/
def createBucket : (rateEnv : Option UInt64) → Option TokenBucket
  | none => TokenBucket.new maxQpRateLimit burstPerQp
  | some rateLimit => TokenBucket.new (rateLimit / 8) burstPerQp

/-- The limit that is configured, in bits per second. Kind: D -/
def limitBits : (rateEnv : Option UInt64) → ℕ
  | none => 8 * maxQpRateLimit.toNat
  | some rateLimit => rateLimit.toNat

/-- The bucket that `TokenBucket(rate, BURST_PER_QP)` makes, in numbers. Kind: L -/
lemma TokenBucket.new_eq_some_iff {rate : UInt64} {tb : TokenBucket} :
    TokenBucket.new rate burstPerQp = some tb ↔
      0 < rate.toNat ∧ tb.time = 0 ∧ tb.timePerToken.toNat = 5000000000 / rate.toNat ∧
        tb.timePerBurst.toNat = 4000000 * (5000000000 / rate.toNat) := by
  have hrate : rate = 0 ↔ rate.toNat = 0 := by rw [← UInt64.toNat_inj]; rfl
  have htoken : (5000000000 / rate : UInt64).toNat = 5000000000 / rate.toNat :=
    UInt64.toNat_div 5000000000 rate
  have hle : 5000000000 / rate.toNat ≤ 5000000000 := Nat.div_le_self _ _
  have hburst : (burstPerQp * (5000000000 / rate)).toNat =
      4000000 * (5000000000 / rate.toNat) := by
    rw [UInt64.toNat_mul, htoken]
    exact Nat.mod_eq_of_lt (lt_of_le_of_lt (Nat.mul_le_mul_left 4000000 hle) (by decide))
  obtain ⟨t, p, b⟩ := tb
  unfold TokenBucket.new
  split
  case isTrue h =>
    have h0 := hrate.mp h
    simp [h0]
  case isFalse h =>
    have hpos : 0 < rate.toNat := Nat.pos_of_ne_zero fun h0 => h (hrate.mpr h0)
    rw [Option.some.injEq, TokenBucket.mk.injEq, ← hburst, ← htoken]
    simp only [UInt64.toNat_inj, hpos, true_and]
    exact ⟨fun h => ⟨h.1.symm, h.2.1.symm, h.2.2.symm⟩,
      fun h => ⟨h.1.symm, h.2.1.symm, h.2.2.symm⟩⟩

/-- The rate handed to the constructor is the configured limit in bytes. Kind: L -/
lemma createBucket_eq (rateEnv : Option UInt64) :
    ∃ rate, createBucket rateEnv = TokenBucket.new rate burstPerQp ∧
      rate.toNat = limitBits rateEnv / 8 := by
  cases rateEnv with
  | none => exact ⟨maxQpRateLimit, rfl, by decide⟩
  | some r => exact ⟨r / 8, rfl, UInt64.toNat_div r 8⟩

/-! ## Threads in `consume` -/

namespace Metering

/-- The clock of `consume` at `us` microseconds. Source: `tokenbucket.h`. Kind: D -/
def ticks (us : ℕ) : UInt64 := UInt64.ofNat (us * 5000)

/-- How far a thread is in a call `consume(len)`. Kind: D -/
inductive Caller
  | idle
  /-- it has read the clock -/
  | timed (us : ℕ) (len : UInt32)
  /-- it is about to exchange `oldTime` for `newTime` -/
  | trying (us : ℕ) (len : UInt32) (oldTime newTime : UInt64)
  deriving DecidableEq, Repr

/-- A bucket with the threads that call `consume`. `clock` is the last reading of the clock, and
`log` what was admitted so far: the reading of the call, and its tokens. Kind: D -/
structure State where
  tb : TokenBucket
  clock : ℕ
  caller : ℕ → Caller
  log : List (ℕ × UInt32)

/-- The moves of thread `i`. A `spurious` exchange fails whatever it finds. Kind: D -/
inductive Act
  | enter (i us : ℕ) (len : UInt32)
  | load (i : ℕ)
  | exchange (i : ℕ) (spurious : Bool)
  deriving DecidableEq, Repr

/-- The head of the loop: `newTime += timeNeeded`, and `return false` if that is in the future.
Source: `tokenbucket.h` `TokenBucket::consume`
Kind: D -/
def attempt (now base timeNeeded : UInt64) : Option UInt64 :=
  let newTime := base + timeNeeded
  if now < newTime then none else some newTime

/-- `timeNeeded`. Kind: D -/
def timeNeeded (tb : TokenBucket) (len : UInt32) : UInt64 := len.toUInt64 * tb.timePerToken

/-- `newTime` before the loop: `time_`, clamped to `minTime`. Kind: D -/
def clamp (tb : TokenBucket) (now : UInt64) : UInt64 :=
  let minTime := now - tb.timePerBurst
  if tb.time < minTime then minTime else tb.time

/-- Where a thread is after the head of the loop: `return false`, or at the exchange. Kind: D -/
def arrive (us : ℕ) (len : UInt32) (oldTime : UInt64) : Option UInt64 → Caller
  | none => .idle
  | some newTime => .trying us len oldTime newTime

/-- Thread `i` at the head of the loop with `newTime = base`, after it has found the present
`time_`. Kind: D -/
def State.tryFrom (s : State) (i us : ℕ) (len : UInt32) (base : UInt64) : State :=
  let newTime := attempt (ticks us) base (timeNeeded s.tb len)
  { s with caller := Function.update s.caller i (arrive us len s.tb.time newTime) }

/-- **One move.** The clock does not go back.
Source: `tokenbucket.h` `TokenBucket::consume`
Kind: D -/
def step (s : State) : Act → Option State
  | .enter i us len => do
      guard (s.caller i = .idle ∧ s.clock ≤ us)
      some { s with clock := us, caller := Function.update s.caller i (.timed us len) }
  | .load i =>
      match s.caller i with
      | .timed us len => some (s.tryFrom i us len (clamp s.tb (ticks us)))
      | _ => none
  | .exchange i spurious =>
      match s.caller i with
      | .trying us len oldTime newTime =>
          if spurious = false ∧ s.tb.time = oldTime then
            some { s with
              tb := { s.tb with time := newTime }
              caller := Function.update s.caller i .idle
              log := s.log ++ [(us, len)] }
          else some (s.tryFrom i us len s.tb.time)
      | _ => none

/-- A new bucket, and nobody in `consume`. Kind: D -/
def State.start (tb : TokenBucket) : State := ⟨tb, 0, fun _ => .idle, []⟩

/-! ### What a move does -/

/-- **Every move**: a call begins, arrives at the exchange (or gives up) from the clamp or from a
`time_` it found, or succeeds. Kind: P -/
lemma step_cases {s s' : State} {a : Act} (h : step s a = some s') :
    (∃ i us len, a = .enter i us len ∧ s.caller i = .idle ∧ s.clock ≤ us ∧
      s' = { s with clock := us, caller := Function.update s.caller i (.timed us len) }) ∨
    (∃ i us len, a = .load i ∧ s.caller i = .timed us len ∧
      s' = s.tryFrom i us len (clamp s.tb (ticks us))) ∨
    (∃ i us len old new, a = .exchange i false ∧ s.caller i = .trying us len old new ∧
      s.tb.time = old ∧
      s' = { s with tb := { s.tb with time := new }
                    caller := Function.update s.caller i .idle
                    log := s.log ++ [(us, len)] }) ∨
    (∃ i sp us len old new, a = .exchange i sp ∧ s.caller i = .trying us len old new ∧
      ¬ (sp = false ∧ s.tb.time = old) ∧ s' = s.tryFrom i us len s.tb.time) := by
  cases a with
  | enter i us len =>
      simp only [step, Option.bind_eq_bind, Option.bind_eq_some_iff, Option.guard_eq_some',
        Option.some.injEq] at h
      obtain ⟨-, ⟨hidle, hclock⟩, rfl⟩ := h
      exact .inl ⟨i, us, len, rfl, hidle, hclock, rfl⟩
  | load i =>
      simp only [step] at h
      split at h
      case h_1 us len hc =>
        cases h
        exact .inr (.inl ⟨i, us, len, rfl, hc, rfl⟩)
      case h_2 => cases h
  | exchange i sp =>
      simp only [step] at h
      split at h
      case h_1 us len old new hc =>
        split at h
        case isTrue hok =>
          cases h
          obtain ⟨rfl, hold⟩ := hok
          exact .inr (.inr (.inl ⟨i, us, len, old, new, rfl, hc, hold, rfl⟩))
        case isFalse hno =>
          cases h
          exact .inr (.inr (.inr ⟨i, sp, us, len, old, new, rfl, hc, hno, rfl⟩))
      case h_2 => cases h

/-- `consume` without other threads is one attempt from the clamp. Kind: L -/
lemma consume_eq_attempt (tb : TokenBucket) (now : UInt64) (len : UInt32) :
    tb.consume now len.toUInt64 =
      (attempt now (clamp tb now) (timeNeeded tb len)).map fun t => { tb with time := t } := by
  unfold TokenBucket.consume attempt clamp timeNeeded
  simp only [apply_ite (Option.map _), Option.map_none, Option.map_some]

/-- The state after a successful call at `us` that left the bucket as `tb`. Kind: D -/
def State.afterCall (s : State) (us : ℕ) (len : UInt32) (tb : TokenBucket) : State :=
  { s with tb := tb, clock := us, log := s.log ++ [(us, len)] }

/-- **A call that nobody interrupts and that succeeds** is a successful `TokenBucket.consume`.
Kind: P -/
theorem exec_call {s : State} {i us : ℕ} {len : UInt32} {tb' : TokenBucket}
    (hidle : s.caller i = .idle) (hclock : s.clock ≤ us)
    (h : s.tb.consume (ticks us) len.toUInt64 = some tb') :
    exec step s [.enter i us len, .load i, .exchange i false] =
      some (s.afterCall us len tb') := by
  rw [consume_eq_attempt, Option.map_eq_some_iff] at h
  obtain ⟨newTime, hnew, rfl⟩ := h
  have hupd : Function.update s.caller i .idle = s.caller := by
    rw [← hidle, Function.update_eq_self]
  simp [exec, step, hidle, hclock, State.tryFrom, State.afterCall, arrive, hnew, guard, hupd]

/-- **A call that nobody interrupts and that fails** leaves everything but the clock. Kind: P -/
theorem exec_call_none {s : State} {i us : ℕ} {len : UInt32}
    (hidle : s.caller i = .idle) (hclock : s.clock ≤ us)
    (h : s.tb.consume (ticks us) len.toUInt64 = none) :
    exec step s [.enter i us len, .load i] = some { s with clock := us } := by
  rw [consume_eq_attempt, Option.map_eq_none_iff] at h
  have hupd : Function.update s.caller i .idle = s.caller := by
    rw [← hidle, Function.update_eq_self]
  simp [exec, step, hidle, hclock, State.tryFrom, arrive, h, guard, hupd]

/-! ### In numbers -/

/-- The clock value while it fits. Kind: L -/
lemma ticks_toNat {us : ℕ} (h : us * 5000 < 2 ^ 64) : (ticks us).toNat = us * 5000 := by
  rw [ticks, UInt64.toNat_ofNat']
  exact Nat.mod_eq_of_lt h

/-- The clock value, also when it wraps. Kind: L -/
lemma ticks_toNat_le (us : ℕ) : (ticks us).toNat ≤ us * 5000 := by
  rw [ticks, UInt64.toNat_ofNat']
  exact Nat.mod_le _ _

/-- `timeNeeded`, as the product wraps. Kind: L -/
lemma timeNeeded_toNat (tb : TokenBucket) (len : UInt32) :
    (timeNeeded tb len).toNat = len.toNat * tb.timePerToken.toNat % 2 ^ 64 := by
  rw [timeNeeded, UInt64.toNat_mul, UInt32.toNat_toUInt64]

/-- The clamp, once the clock is past one burst. Kind: L -/
lemma clamp_toNat {tb : TokenBucket} {now : UInt64} (h : tb.timePerBurst.toNat ≤ now.toNat) :
    (clamp tb now).toNat = max tb.time.toNat (now.toNat - tb.timePerBurst.toNat) := by
  have hmin : (now - tb.timePerBurst).toNat = now.toNat - tb.timePerBurst.toNat :=
    UInt64.toNat_sub_of_le now tb.timePerBurst h
  simp only [clamp, UInt64.lt_iff_toNat_lt, hmin]
  split <;> omega

/-- An attempt in numbers, as the sum wraps. Kind: L -/
lemma attempt_eq_some_iff {now base needed newTime : UInt64} :
    attempt now base needed = some newTime ↔
      newTime.toNat = (base.toNat + needed.toNat) % 2 ^ 64 ∧ newTime.toNat ≤ now.toNat := by
  have hnew : newTime = base + needed ↔
      newTime.toNat = (base.toNat + needed.toNat) % 2 ^ 64 := by
    rw [← UInt64.toNat_inj, UInt64.toNat_add]
  rw [← hnew]
  simp only [attempt, UInt64.lt_iff_toNat_lt]
  split
  case isTrue h =>
    refine ⟨fun hcontra => (by cases hcontra), ?_⟩
    rintro ⟨rfl, hle⟩
    omega
  case isFalse h =>
    rw [Option.some.injEq]
    constructor
    · rintro rfl
      exact ⟨rfl, not_lt.mp h⟩
    · rintro ⟨rfl, -⟩
      rfl

/-! ### Regular runs -/

/-- **The condition for a move**: the clock is past one burst and in range, the tokens' time is in
range, and an exchange that fails finds a `time_` which the clamp would not change.
Kind: D -/
def Regular (s : State) : Act → Prop
  | .enter _ us len =>
      s.tb.timePerBurst.toNat ≤ us * 5000 ∧ us * 5000 < 2 ^ 63 ∧
        len.toNat * s.tb.timePerToken.toNat < 2 ^ 63
  | .load _ => True
  | .exchange i spurious =>
      match s.caller i with
      | .trying us _ oldTime _ =>
          (spurious = false ∧ s.tb.time = oldTime) ∨
            us * 5000 ≤ s.tb.time.toNat + s.tb.timePerBurst.toNat
      | _ => True

/-- A call that began regularly. Kind: D -/
def Fits (tb : TokenBucket) (clock us : ℕ) (len : UInt32) : Prop :=
  us ≤ clock ∧ tb.timePerBurst.toNat ≤ us * 5000 ∧
    len.toNat * tb.timePerToken.toNat < 2 ^ 63

/-- What holds for a thread: a `newTime` that it may store is the `oldTime` it would replace,
clamped, plus the time of the tokens, and not in the future. Kind: D -/
def CallerOk (tb : TokenBucket) (clock : ℕ) : Caller → Prop
  | .idle => True
  | .timed us len => Fits tb clock us len
  | .trying us len oldTime newTime =>
      Fits tb clock us len ∧
        newTime.toNat = max oldTime.toNat (us * 5000 - tb.timePerBurst.toNat) +
          len.toNat * tb.timePerToken.toNat ∧
        newTime.toNat ≤ us * 5000

/-- An entry of the log as an admission of a meter that counts clock ticks. Kind: D -/
def admission (tb : TokenBucket) (a : ℕ × UInt32) : Meter.Admission ℤ :=
  ⟨(a.1 * 5000 : ℕ), (a.2.toNat * tb.timePerToken.toNat : ℕ)⟩

/-- **What holds in regular runs**: the log is a chain of admissions that ends at `time_`.
Kind: D -/
structure Metered (s : State) : Prop where
  clock_lt : s.clock * 5000 < 2 ^ 63
  time_le : s.tb.time.toNat ≤ s.clock * 5000
  callers : ∀ i, CallerOk s.tb s.clock (s.caller i)
  chain : Meter.Chain (s.tb.timePerBurst.toNat : ℤ) 0 (s.log.map (admission s.tb))
    (s.tb.time.toNat : ℤ)

/-- A later clock reading. Kind: L -/
lemma CallerOk.mono {tb : TokenBucket} {clock clock' : ℕ} {c : Caller} (h : CallerOk tb clock c)
    (hle : clock ≤ clock') : CallerOk tb clock' c := by
  cases c with
  | idle => trivial
  | timed us len => exact ⟨h.1.trans hle, h.2⟩
  | trying us len old new => exact ⟨⟨h.1.1.trans hle, h.1.2⟩, h.2⟩

/-- A thread arrives at the exchange from a base that is the present `time_`, clamped. Kind: L -/
lemma metered_tryFrom {s : State} (hs : Metered s) {i us : ℕ} {len : UInt32} {base : UInt64}
    (hfits : Fits s.tb s.clock us len)
    (hbase : base.toNat = max s.tb.time.toNat (us * 5000 - s.tb.timePerBurst.toNat)) :
    Metered (s.tryFrom i us len base) := by
  obtain ⟨hclock, htime, hcallers, hchain⟩ := hs
  refine ⟨hclock, htime,
    (Function.forall_update_iff _ fun _ => CallerOk s.tb s.clock).mpr ⟨?_, fun j _ => hcallers j⟩,
    hchain⟩
  rcases hatt : attempt (ticks us) base (timeNeeded s.tb len) with _ | newTime
  · trivial
  · obtain ⟨hus, hpast, hneeded⟩ := hfits
    have hlt : us * 5000 < 2 ^ 63 := lt_of_le_of_lt (Nat.mul_le_mul_right 5000 hus) hclock
    have htimed : (timeNeeded s.tb len).toNat = len.toNat * s.tb.timePerToken.toNat := by
      rw [timeNeeded_toNat]
      exact Nat.mod_eq_of_lt (hneeded.trans (by norm_num))
    have hticks : (ticks us).toNat = us * 5000 := ticks_toNat (hlt.trans (by norm_num))
    obtain ⟨hnew, hle⟩ := attempt_eq_some_iff.mp hatt
    rw [htimed, hbase, Nat.mod_eq_of_lt (by omega)] at hnew
    rw [hticks] at hle
    exact ⟨⟨hus, hpast, hneeded⟩, hnew, hle⟩

/-- **A regular move** keeps the log a chain. Kind: P -/
lemma metered_step {s s' : State} {a : Act} (hs : Metered s) (hreg : Regular s a)
    (h : step s a = some s') : Metered s' := by
  rcases step_cases h with ⟨i, us, len, rfl, -, hle, rfl⟩ | ⟨i, us, len, rfl, hc, rfl⟩ |
    ⟨i, us, len, old, new, rfl, hc, hold, rfl⟩ | ⟨i, sp, us, len, old, new, rfl, hc, hno, rfl⟩
  · obtain ⟨hpast, hlt, hneeded⟩ := hreg
    obtain ⟨-, htime, hcallers, hchain⟩ := hs
    refine ⟨hlt, htime.trans (Nat.mul_le_mul_right 5000 hle),
      (Function.forall_update_iff _ fun _ => CallerOk s.tb us).mpr ⟨?_, ?_⟩, hchain⟩
    · exact ⟨le_rfl, hpast, hneeded⟩
    · exact fun j _ => (hcallers j).mono hle
  · have hfits : Fits s.tb s.clock us len := by
      have hok := hs.callers i
      rwa [hc] at hok
    have hlt : us * 5000 < 2 ^ 63 :=
      lt_of_le_of_lt (Nat.mul_le_mul_right 5000 hfits.1) hs.clock_lt
    refine metered_tryFrom hs hfits ?_
    have hticks : (ticks us).toNat = us * 5000 := ticks_toNat (by omega)
    rw [clamp_toNat (by rw [hticks]; exact hfits.2.1), hticks]
  · have hok : CallerOk s.tb s.clock (.trying us len old new) := hc ▸ hs.callers i
    obtain ⟨⟨hus, hpast, hneeded⟩, hnew, hle⟩ := hok
    obtain ⟨hclock, -, hcallers, hchain⟩ := hs
    subst hold
    -- the stored time is what the meter charges for this admission
    have hcharge : (new.toNat : ℤ) =
        Meter.charge (s.tb.timePerBurst.toNat : ℤ) s.tb.time.toNat (admission s.tb (us, len)) := by
      simp only [Meter.charge, admission, hnew]
      omega
    have hnow : Meter.charge (s.tb.timePerBurst.toNat : ℤ) s.tb.time.toNat
        (admission s.tb (us, len)) ≤ (admission s.tb (us, len)).clock := by
      rw [← hcharge]
      exact Int.ofNat_le.mpr hle
    refine ⟨hclock, hle.trans (Nat.mul_le_mul_right 5000 hus),
      (Function.forall_update_iff _ fun _ => CallerOk s.tb s.clock).mpr
        ⟨trivial, fun j _ => hcallers j⟩, ?_⟩
    rw [List.map_append, hcharge]
    exact hchain.append_singleton hnow
  · have hok : CallerOk s.tb s.clock (.trying us len old new) := hc ▸ hs.callers i
    have hfresh : us * 5000 ≤ s.tb.time.toNat + s.tb.timePerBurst.toNat := by
      simp only [Regular, hc] at hreg
      exact hreg.resolve_left hno
    exact metered_tryFrom hs hok.1 (by omega)

/-- **Regular runs** from a new bucket. Kind: P -/
theorem metered_of_regular {tb : TokenBucket} (htb : tb.time = 0) {as : List Act} {s : State}
    (hrun : exec step (State.start tb) as = some s)
    (hreg : Along step Regular (State.start tb) as) : Metered s := by
  refine exec_invariant_along (fun s a s' => metered_step) ?_ hreg hrun
  exact ⟨by simp [State.start], by simp [State.start, htb], fun _ => trivial,
    by simp [State.start, htb, Meter.Chain]⟩

/-- The constructor's numbers are never changed. Kind: L -/
lemma constants_of_exec {tb : TokenBucket} {as : List Act} {s : State}
    (hrun : exec step (State.start tb) as = some s) :
    s.tb.timePerToken = tb.timePerToken ∧ s.tb.timePerBurst = tb.timePerBurst := by
  refine @exec_invariant _ _ step
    (fun s => s.tb.timePerToken = tb.timePerToken ∧ s.tb.timePerBurst = tb.timePerBurst)
    (fun s a s' hs h => ?_) _ s as ⟨rfl, rfl⟩ hrun
  rcases step_cases h with ⟨i, us, len, -, -, -, rfl⟩ | ⟨i, us, len, -, -, rfl⟩ |
    ⟨i, us, len, old, new, -, -, -, rfl⟩ | ⟨i, sp, us, len, old, new, -, -, -, rfl⟩ <;> exact hs

/-! ## The rate limit -/

/-- The bytes of a log that were admitted at clock readings from `lo` to `lo + T`. Kind: D -/
def admittedIn (log : List (ℕ × UInt32)) (lo T : ℕ) : ℕ :=
  ((log.filter fun a => lo ≤ a.1 ∧ a.1 ≤ lo + T).map (·.2.toNat)).sum

/-- **The law** of a limit in bits per second: every window of `T` microseconds has at most
`(limit / 8) * T / 10^6 + BURST_PER_QP` bytes, multiplied out. Kind: D -/
def RateLaw (limit : ℕ) (log : List (ℕ × UInt32)) : Prop :=
  ∀ lo T, 8000000 * admittedIn log lo T ≤ limit * T + 8000000 * burstPerQp.toNat

/-- An entry inside the window counts, another does not. Kind: L -/
lemma admittedIn_cons (a : ℕ × UInt32) (log : List (ℕ × UInt32)) (lo T : ℕ) :
    admittedIn (a :: log) lo T =
      if lo ≤ a.1 ∧ a.1 ≤ lo + T then a.2.toNat + admittedIn log lo T
      else admittedIn log lo T := by
  unfold admittedIn
  by_cases ha : lo ≤ a.1 ∧ a.1 ≤ lo + T
  · rw [if_pos ha, List.filter_cons_of_pos (by simpa using ha), List.map_cons, List.sum_cons]
  · rw [if_neg ha, List.filter_cons_of_neg (by simpa using ha)]

/-- The bytes of a window and their time on the meter. Kind: L -/
lemma load_eq (tb : TokenBucket) (log : List (ℕ × UInt32)) (lo T : ℕ) :
    Meter.load ((lo * 5000 : ℕ) : ℤ) (((lo + T) * 5000 : ℕ) : ℤ) (log.map (admission tb)) =
      ((admittedIn log lo T * tb.timePerToken.toNat : ℕ) : ℤ) := by
  induction log with
  | nil => simp [Meter.load, admittedIn]
  | cons a log ih =>
      have hin : ((lo * 5000 : ℕ) : ℤ) ≤ (admission tb a).clock ∧
          (admission tb a).clock ≤ (((lo + T) * 5000 : ℕ) : ℤ) ↔ lo ≤ a.1 ∧ a.1 ≤ lo + T := by
        simp only [admission]
        omega
      rw [List.map_cons, Meter.load_cons, ih, admittedIn_cons]
      simp only [hin]
      split
      case isTrue =>
        rw [add_mul, Nat.cast_add]
        rfl
      case isFalse => rfl

/-- What the window law of the meter says of a log, in bytes. Kind: L -/
lemma Metered.admittedIn_mul_le {s : State} (hs : Metered s) (lo T : ℕ) :
    admittedIn s.log lo T * s.tb.timePerToken.toNat ≤ T * 5000 + s.tb.timePerBurst.toNat := by
  have hcost : ∀ a ∈ s.log.map (admission s.tb), 0 ≤ a.cost := by
    intro a ha
    obtain ⟨b, -, rfl⟩ := List.mem_map.mp ha
    exact Int.natCast_nonneg _
  have hwindow : ((lo * 5000 : ℕ) : ℤ) ≤ (((lo + T) * 5000 : ℕ) : ℤ) := by omega
  have hload := Meter.load_le (Int.natCast_nonneg _) hcost hs.chain hwindow
  rw [load_eq] at hload
  omega

/-- **The law in a regular run**, when a token takes at least its share of a second. Kind: P -/
lemma Metered.rateLaw {s : State} (hs : Metered s) {limit : ℕ}
    (hburst : s.tb.timePerBurst.toNat = burstPerQp.toNat * s.tb.timePerToken.toNat)
    (hlimit : 8 * 5000000000 ≤ limit * s.tb.timePerToken.toNat) : RateLaw limit s.log := by
  intro lo T
  have hle := hs.admittedIn_mul_le lo T
  have hpos : 0 < s.tb.timePerToken.toNat := by
    rcases Nat.eq_zero_or_pos s.tb.timePerToken.toNat with h0 | hpos
    · rw [h0, Nat.mul_zero] at hlimit
      omega
    · exact hpos
  -- both sides in clock ticks, where the limit pays for the window
  refine Nat.le_of_mul_le_mul_right ?_ hpos
  calc 8000000 * admittedIn s.log lo T * s.tb.timePerToken.toNat
      = 8000000 * (admittedIn s.log lo T * s.tb.timePerToken.toNat) := Nat.mul_assoc _ _ _
    _ ≤ 8000000 * (T * 5000 + s.tb.timePerBurst.toNat) := Nat.mul_le_mul_left _ hle
    _ = 8 * 5000000000 * T + 8000000 * s.tb.timePerBurst.toNat := by ring
    _ ≤ limit * s.tb.timePerToken.toNat * T + 8000000 * s.tb.timePerBurst.toNat := by gcongr
    _ = (limit * T + 8000000 * burstPerQp.toNat) * s.tb.timePerToken.toNat := by
        rw [hburst]
        ring

/-! ### Limits whose time per token is rounded down -/

/-- A call with everything in range succeeds and stores the time it comes to. Kind: L -/
lemma consume_eq_some {tb : TokenBucket} {us t : ℕ} {len : UInt32}
    (hpast : tb.timePerBurst.toNat ≤ us * 5000) (hus : us * 5000 < 2 ^ 63)
    (ht : max tb.time.toNat (us * 5000 - tb.timePerBurst.toNat) +
      len.toNat * tb.timePerToken.toNat = t) (hle : t ≤ us * 5000) :
    tb.consume (ticks us) len.toUInt64 = some { tb with time := UInt64.ofNat t } := by
  have hticks : (ticks us).toNat = us * 5000 := ticks_toNat (hus.trans (by norm_num))
  have hneeded : (timeNeeded tb len).toNat = len.toNat * tb.timePerToken.toNat := by
    rw [timeNeeded_toNat]
    exact Nat.mod_eq_of_lt (by omega)
  have hclamp : (clamp tb (ticks us)).toNat =
      max tb.time.toNat ((ticks us).toNat - tb.timePerBurst.toNat) := clamp_toNat (by omega)
  have hatt : attempt (ticks us) (clamp tb (ticks us)) (timeNeeded tb len) =
      some (UInt64.ofNat t) := by
    rw [attempt_eq_some_iff, hclamp, hneeded, hticks, ht, UInt64.toNat_ofNat',
      Nat.mod_eq_of_lt (by omega)]
    exact ⟨rfl, hle⟩
  rw [consume_eq_attempt, hatt, Option.map_some]

/-- A call that nobody interrupts is regular when its begin is. Kind: L -/
lemma along_call {s : State} {i us : ℕ} {len : UInt32} {tb' : TokenBucket}
    (hidle : s.caller i = .idle) (hclock : s.clock ≤ us)
    (h : s.tb.consume (ticks us) len.toUInt64 = some tb') (hreg : Regular s (.enter i us len)) :
    Along step Regular s [.enter i us len, .load i, .exchange i false] := by
  rw [consume_eq_attempt, Option.map_eq_some_iff] at h
  obtain ⟨newTime, hnew, -⟩ := h
  refine ⟨hreg, fun s₁ h₁ => ⟨trivial, fun s₂ h₂ => ⟨?_, fun _ _ => trivial⟩⟩⟩
  have hs₁ : s₁ = { s with clock := us, caller := Function.update s.caller i (.timed us len) } := by
    simpa [step, hidle, hclock, guard, eq_comm] using h₁
  subst hs₁
  have hs₂ : s₂.caller i = .trying us len s.tb.time newTime ∧ s₂.tb = s.tb := by
    simp only [step, Function.update_self, Option.some.injEq] at h₂
    subst h₂
    simp [State.tryFrom, arrive, hnew]
  simp [Regular, hs₂.1, hs₂.2]

/-- Two calls of one thread: a whole burst after 4 * 10^12 microseconds, and 5000 tokens as much
later as the time per token has ticks. Kind: D -/
def twoCalls (timePerToken : ℕ) : List Act :=
  ([.enter 0 4000000000000 4000000, .load 0, .exchange 0 false] : List Act) ++
    ([.enter 0 (4000000000000 + timePerToken) 5000, .load 0, .exchange 0 false] : List Act)

/-- **Both calls are admitted**, whatever the rate. Kind: P -/
lemma exec_twoCalls {tb : TokenBucket} (htime : tb.time = 0)
    (htoken : tb.timePerToken.toNat ≤ 5000000000)
    (hburst : tb.timePerBurst.toNat = 4000000 * tb.timePerToken.toNat) :
    ∃ s, exec step (State.start tb) (twoCalls tb.timePerToken.toNat) = some s ∧
      Along step Regular (State.start tb) (twoCalls tb.timePerToken.toNat) ∧
      s.log = [(4000000000000, 4000000), (4000000000000 + tb.timePerToken.toNat, 5000)] := by
  generalize hp : tb.timePerToken.toNat = p at *
  have htime' : tb.time.toNat = 0 := by rw [htime]; rfl
  have hlen : (4000000 : UInt32).toNat = 4000000 ∧ (5000 : UInt32).toNat = 5000 := by decide
  -- the first call spends all the time up to its clock reading
  have hfirst : tb.consume (ticks 4000000000000) (4000000 : UInt32).toUInt64 =
      some { tb with time := UInt64.ofNat 20000000000000000 } :=
    consume_eq_some (by omega) (by norm_num) (by rw [hlen.1, hp]; omega) (by norm_num)
  -- the second spends all the time from there to its own
  have hsecond : ({ tb with time := UInt64.ofNat 20000000000000000 } : TokenBucket).consume
      (ticks (4000000000000 + p)) (5000 : UInt32).toUInt64 =
      some { tb with time := UInt64.ofNat (20000000000000000 + 5000 * p) } := by
    have hspent : (UInt64.ofNat 20000000000000000).toNat = 20000000000000000 := by decide
    refine consume_eq_some ?_ ?_ ?_ ?_
    · simp only [hburst]; omega
    · omega
    · simp only [hburst, hspent, hlen.2, hp]; omega
    · omega
  have hidle : (State.start tb).caller 0 = .idle := rfl
  have hidle' : ((State.start tb).afterCall 4000000000000 4000000
      { tb with time := UInt64.ofNat 20000000000000000 }).caller 0 = .idle := rfl
  have hclock' : ((State.start tb).afterCall 4000000000000 4000000
      { tb with time := UInt64.ofNat 20000000000000000 }).clock ≤ 4000000000000 + p :=
    Nat.le_add_right _ _
  have hrun := exec_call hidle (Nat.zero_le _) hfirst
  have hrun' := exec_call hidle' hclock' hsecond
  have hreg := along_call hidle (Nat.zero_le _) hfirst
    ⟨by simp only [State.start, hburst]; omega, by norm_num,
      by simp only [State.start, hlen.1, hp]; omega⟩
  have hreg' := along_call hidle' hclock' hsecond
    ⟨by simp only [State.afterCall, hburst]; omega, by omega,
      by simp only [State.afterCall, hlen.2, hp]; omega⟩
  exact ⟨_, by rw [twoCalls, exec_append, hrun, Option.bind_some, hrun'],
    along_append step hreg hrun hreg', rfl⟩

/-- **Rounding breaks the law**: when a token takes less than its share of a second, two calls
admit too much. Kind: P -/
lemma not_rateLaw_twoCalls {limit p : ℕ} (hlimit : limit * p < 8 * 5000000000) :
    ¬ RateLaw limit [(4000000000000, 4000000), (4000000000000 + p, 5000)] := by
  intro hlaw
  have h := hlaw 4000000000000 p
  have hlen : (4000000 : UInt32).toNat = 4000000 ∧ (5000 : UInt32).toNat = 5000 := by decide
  have hburst : burstPerQp.toNat = 4000000 := by decide
  have hnil : admittedIn [] 4000000000000 p = 0 := rfl
  simp only [admittedIn_cons, hnil, le_refl, Nat.le_add_right, and_self, if_true, hlen.1, hlen.2,
    hburst] at h
  omega

/-- **The rate limit**: for a limit of `R` bits per second (or the default), the bucket can be made
and every regular run obeys the law, exactly when `R` is at least 8 and `R` times the time per
token, which is rounded down twice, is still a whole second of ticks for every 8 bits. Kind: C -/
theorem rateLaw_iff (rateEnv : Option UInt64) :
    (∃ tb, createBucket rateEnv = some tb ∧
        ∀ as s, exec step (State.start tb) as = some s →
          Along step Regular (State.start tb) as → RateLaw (limitBits rateEnv) s.log) ↔
      8 ≤ limitBits rateEnv ∧
        8 * 5000000000 ≤ limitBits rateEnv * (5000000000 / (limitBits rateEnv / 8)) := by
  obtain ⟨rate, hcreate, hrate⟩ := createBucket_eq rateEnv
  rw [hcreate]
  constructor
  · rintro ⟨tb, hnew, hlaw⟩
    obtain ⟨hpos, htime, htoken, hburst⟩ := TokenBucket.new_eq_some_iff.mp hnew
    rw [← htoken] at hburst
    rw [hrate] at hpos htoken
    have hle : tb.timePerToken.toNat ≤ 5000000000 := htoken ▸ Nat.div_le_self _ _
    obtain ⟨s, hrun, hreg, hlog⟩ := exec_twoCalls htime hle hburst
    have hs := hlaw _ s hrun hreg
    rw [hlog] at hs
    refine ⟨by omega, ?_⟩
    rw [← htoken]
    by_contra hlt
    exact not_rateLaw_twoCalls (not_le.mp hlt) hs
  · rintro ⟨hge, hlimit⟩
    have hpos : 0 < rate.toNat := by omega
    obtain ⟨tb, hnew⟩ : ∃ tb, TokenBucket.new rate burstPerQp = some tb := by
      have hne : rate ≠ 0 := fun h0 => by simp [h0] at hpos
      exact ⟨_, if_neg hne⟩
    obtain ⟨-, htime, htoken, hburst⟩ := TokenBucket.new_eq_some_iff.mp hnew
    refine ⟨tb, hnew, fun as s hrun hreg => ?_⟩
    obtain ⟨hsame, hsame'⟩ := constants_of_exec hrun
    refine (metered_of_regular htime hrun hreg).rateLaw ?_ ?_
    · rw [hsame, hsame', hburst, htoken]
      rfl
    · rwa [hsame, htoken, hrate]

/-- A limit of 24 Gbit/s, which is 3 * 10^9 bytes per second: a token takes 1 tick instead of 5/3
of one, and 4005000 bytes are admitted in a window of one microsecond, for which the limit allows
4003000. Kind: C -/
theorem rateLaw_fails_24Gbit :
    ((createBucket (some 24000000000)).bind fun tb =>
        (exec step (State.start tb) (twoCalls 1)).map fun s =>
          admittedIn s.log 4000000000000 1) = some 4005000 ∧
      24000000000 * 1 + 8000000 * burstPerQp.toNat < 8000000 * 4005000 ∧
      createBucket (some 7) = none := by
  decide +kernel

/-- Before the clock is past one burst `minTime` wraps around: at 8000 bit/s, half an hour after
boot, every whole burst is admitted. -/
example :
    ((createBucket (some 8000)).bind fun tb =>
      (exec step (State.start tb)
        (([.enter 0 1800000000 4000000, .load 0, .exchange 0 false] : List Act) ++
          ([.enter 0 1800000000 4000000, .load 0, .exchange 0 false] : List Act))).map fun s =>
        admittedIn s.log 1800000000 0) = some 8000000 := by
  decide +kernel

/-- A thread that goes on from an old `time_` of another thread leaves that much credit behind:
here a burst is admitted twice at one clock reading, at the default rate. -/
example :
    ((createBucket none).bind fun tb =>
      (exec step (State.start tb)
        (([.enter 0 1000 1000, .enter 1 2000000 4000000, .load 1, .load 0, .exchange 0 false,
          .exchange 1 false, .exchange 1 false] : List Act) ++
          ([.enter 1 2000000 4000000, .load 1, .exchange 1 false] : List Act))).map fun s =>
        admittedIn s.log 2000000 0) = some 8000000 := by
  decide +kernel

end Metering

end FreeFlow.Router
