import FlussGo.Schema.Validate
/-!
# Dates, times and timestamps

DATE stores the calendar day of the value in its own location, TIME its milliseconds since
midnight, TIMESTAMP its wall clock and TIMESTAMP_LTZ its instant.
-/
namespace FlussGo
open Time Int
variable {kind : DataType} {t : Time}

def nanosPerMilli : Int := 1000000
def millisPerDay : Int := 86400000
/-- Nanoseconds since midnight, from the clock fields of `t`. -/
def nanoOfDay (t : Time) : Int :=
  t.hour * 3600000000000 + t.minute * 60000000000 + t.second * 1000000000 + t.nsec

def temporalInt (kind : DataType) (t : Time) : BitVec 32 :=
  if kind = .date then BitVec.ofInt 32 ((Time.midnight t.epochDay).sec.tdiv 86400)
  else BitVec.ofInt 32 ((nanoOfDay t).tdiv nanosPerMilli)

def temporalTime (kind : DataType) (value : BitVec 32) : Time :=
  if kind = .date then Time.unix (value.toInt * 86400) 0
  else Time.unix 0 (value.toInt * nanosPerMilli)

def timestampParts (kind : DataType) (t : Time) : BitVec 64 × BitVec 32 :=
  if kind = .timestampLTZ then (BitVec.ofInt 64 t.milli, BitVec.ofInt 32 (t.nsec % 1000000))
  else
    let epochDay := (Time.midnight t.epochDay).sec.tdiv 86400
    (BitVec.ofInt 64 (epochDay * millisPerDay + (nanoOfDay t).tdiv nanosPerMilli),
      BitVec.ofInt 32 ((nanoOfDay t).tmod nanosPerMilli))

def timestampTime (kind : DataType) (millis : BitVec 64) (nanos : BitVec 32) : Time :=
  if kind = .timestampLTZ then ((Time.unixMilli millis.toInt).add nanos.toInt).utc
  else
    let days := millis.toInt.tdiv millisPerDay
    let withinDay := millis.toInt.tmod millisPerDay
    if withinDay < 0 then
      Time.unix ((days - 1) * 86400) ((withinDay + millisPerDay) * nanosPerMilli + nanos.toInt)
    else Time.unix (days * 86400) (withinDay * nanosPerMilli + nanos.toInt)
/-- What a temporal value becomes when it is stored: DATE its midnight in UTC, TIME its millisecond
of the day on 1970-01-01, TIMESTAMP its wall clock and TIMESTAMP_LTZ its instant, both in UTC and
without the sub-millisecond part up to precision 3. -/
def storedTime (kind : DataType) (precision : Int) (t : Time) : Time :=
  match kind with
  | .date => Time.midnight t.epochDay
  | .time => Time.unix 0 ((t.secondOfDay * 1000 + (t.nsec / 1000000 : Nat)) * 1000000)
  | .timestampLTZ => if 3 < precision then t.utc else t.utc.truncateMilli
  | _ => if 3 < precision then t.wall else t.wall.truncateMilli
/-- Dates are 32-bit epoch days, timestamps 64-bit milliseconds. -/
def TimeFits (kind : DataType) (t : Time) : Prop :=
  match kind with
  | .date => -2 ^ 31 ≤ t.epochDay ∧ t.epochDay < 2 ^ 31
  | .timestamp => -2 ^ 63 ≤ t.wall.milli ∧ t.wall.milli < 2 ^ 63
  | .timestampLTZ => -2 ^ 63 ≤ t.milli ∧ t.milli < 2 ^ 63
  | _ => True

instance (kind : DataType) (t : Time) : Decidable (TimeFits kind t) :=
  match kind with
  | .date | .timestamp | .timestampLTZ => inferInstanceAs (Decidable (_ ∧ _))
  | .bool | .char | .int | .tinyInt | .smallInt | .bigInt | .float | .double | .string | .binary | .bytes
  | .decimal | .time | .array | .map | .row | .other _ => inferInstanceAs (Decidable True)

theorem toInt_ofInt_32 {x : Int} (hlo : -2 ^ 31 ≤ x) (hhi : x < 2 ^ 31) : (BitVec.ofInt 32 x).toInt = x :=
  BitVec.toInt_ofInt_eq_self (by decide) hlo hhi

theorem toInt_ofInt_64 {x : Int} (hlo : -2 ^ 63 ≤ x) (hhi : x < 2 ^ 63) : (BitVec.ofInt 64 x).toInt = x :=
  BitVec.toInt_ofInt_eq_self (by decide) hlo hhi

theorem nanoOfDay_eq (t : Time) : nanoOfDay t = t.secondOfDay * 1000000000 + t.nsec := by
  have h := t.clock_eq
  unfold nanoOfDay
  omega

theorem nanoOfDay_tdiv (t : Time) :
    (nanoOfDay t).tdiv nanosPerMilli = t.secondOfDay * 1000 + (t.nsec / 1000000 : Nat) := by
  have h0 := t.secondOfDay_nonneg
  rw [nanoOfDay_eq,nanosPerMilli,tdiv_eq_ediv_of_nonneg (by omega)]
  omega

theorem nanoOfDay_tmod (t : Time) : (nanoOfDay t).tmod nanosPerMilli = (t.nsec % 1000000 : Nat) := by
  have h0 := t.secondOfDay_nonneg
  rw [nanoOfDay_eq,nanosPerMilli,tmod_eq_emod_of_nonneg (by omega)]
  omega

theorem midnight_tdiv (day : Int) : (midnight day).sec.tdiv 86400 = day := by
  simp only [midnight,unix,secondsPerDay]
  rw [show day * 86400 + 0 / 1000000000 = day * 86400 by omega]
  exact mul_tdiv_cancel day (by decide)

private theorem temporalTime_date (hf : TimeFits .date t) (precision : Int) :
    temporalTime .date (temporalInt .date t) = storedTime .date precision t := by
  simp only [temporalTime,temporalInt,if_true,midnight_tdiv,storedTime]
  rw [toInt_ofInt_32 hf.1 hf.2,midnight,secondsPerDay]

private theorem temporalTime_time (t : Time) (precision : Int) :
    temporalTime .time (temporalInt .time t) = storedTime .time precision t := by
  have h0 := t.secondOfDay_nonneg
  have h1 := t.secondOfDay_lt
  have h2 := t.nsec_lt
  simp only [temporalTime,temporalInt,reduceCtorEq,if_false,nanoOfDay_tdiv,storedTime]
  rw [toInt_ofInt_32 (by omega) (by omega),nanosPerMilli]

theorem temporalTime_temporalInt (hk : kind = .date ∨ kind = .time) (hf : TimeFits kind t)
    (precision : Int) : temporalTime kind (temporalInt kind t) = storedTime kind precision t := by
  rcases hk with rfl | rfl
  · exact temporalTime_date hf precision
  · exact temporalTime_time t precision

theorem timestampParts_ltz (t : Time) :
    timestampParts .timestampLTZ t = (BitVec.ofInt 64 t.milli, BitVec.ofInt 32 (t.nsec % 1000000 : Nat)) := by
  simp [timestampParts]

theorem timestampParts_wall (t : Time) : timestampParts .timestamp t =
      (BitVec.ofInt 64 t.wall.milli, BitVec.ofInt 32 (t.nsec % 1000000 : Nat)) := by
  simp only [timestampParts,reduceCtorEq,if_false,midnight_tdiv,nanoOfDay_tdiv,nanoOfDay_tmod]
  congr 2
  simp only [millisPerDay,epochDay,secondOfDay,secondsPerDay,milli,wall]
  omega
/-- An instant is recovered from its millisecond and the nanoseconds inside it. -/
theorem timestampTime_ltz {millis : Int} (hlo : -2 ^ 63 ≤ millis) (hhi : millis < 2 ^ 63) {nanos : Nat}
    (hn : nanos < 1000000) : timestampTime .timestampLTZ (BitVec.ofInt 64 millis) (BitVec.ofInt 32 nanos) =
      ⟨millis / 1000,(millis % 1000).toNat * 1000000 + nanos,0,by omega⟩ := by
  simp only [timestampTime,if_true]
  rw [toInt_ofInt_64 hlo hhi,toInt_ofInt_32 (by omega) (by omega)]
  have hs : sign 1000 = 1 := rfl
  have habs : natAbs 1000 = 1000 := rfl
  simp only [unixMilli,add,unix,utc,tdiv_eq_ediv,tmod_eq_emod,hs,habs]
  apply ext
  · dsimp only
    split <;> omega
  · dsimp only
    split <;> omega
  · rfl

theorem timestampTime_wall {millis : Int} (hlo : -2 ^ 63 ≤ millis) (hhi : millis < 2 ^ 63) {nanos : Nat}
    (hn : nanos < 1000000) : timestampTime .timestamp (BitVec.ofInt 64 millis) (BitVec.ofInt 32 nanos) =
      ⟨millis / 1000,(millis % 1000).toNat * 1000000 + nanos,0,by omega⟩ := by
  simp only [timestampTime,reduceCtorEq,if_false]
  rw [toInt_ofInt_64 hlo hhi,toInt_ofInt_32 (by omega) (by omega)]
  have hs : sign 86400000 = 1 := rfl
  have habs : natAbs 86400000 = 86400000 := rfl
  simp only [millisPerDay,nanosPerMilli,tdiv_eq_ediv,tmod_eq_emod,hs,habs,unix]
  -- The quotient is truncated, so a negative remainder belongs to the day before.
  by_cases hpos : 0 ≤ millis ∨ (86400000 : Int) ∣ millis
  · simp only [hpos,if_true]
    rw [if_neg (by omega)]
    apply ext
    · dsimp only
      omega
    · dsimp only
      omega
    · rfl
  · simp only [hpos,if_false]
    rw [if_pos (by omega)]
    apply ext
    · dsimp only
      omega
    · dsimp only
      omega
    · rfl

theorem storedTime_ltz (t : Time) (precision : Int) : storedTime .timestampLTZ precision t =
      ⟨t.sec,if 3 < precision then t.nsec else t.nsec / 1000000 * 1000000,0,
        by have := t.nsec_lt; split <;> omega⟩ := by
  simp only [storedTime]
  split <;> rfl

theorem storedTime_wall (t : Time) (precision : Int) : storedTime .timestamp precision t =
      ⟨t.sec + t.offset,if 3 < precision then t.nsec else t.nsec / 1000000 * 1000000,0,
        by have := t.nsec_lt; split <;> omega⟩ := by
  simp only [storedTime]
  split <;> rfl
/-- The nanoseconds that accompany the milliseconds of a timestamp, where the precision keeps them. -/
def keptNanos (precision : Int) (nanos : BitVec 32) : BitVec 32 := if 3 < precision then nanos else 0

private theorem keptNanos_eq (precision : Int) (n : Nat) :
    keptNanos precision (BitVec.ofInt 32 n) = BitVec.ofInt 32 (if 3 < precision then n else 0 : Nat) := by
  unfold keptNanos
  split <;> rfl

theorem timestampTime_timestampParts (hk : kind = .timestamp ∨ kind = .timestampLTZ)
    (hf : TimeFits kind t) (precision : Int) :
    timestampTime kind (timestampParts kind t).1 (keptNanos precision (timestampParts kind t).2) =
      storedTime kind precision t := by
  have hn := t.nsec_lt
  rcases hk with rfl | rfl
  · rw [timestampParts_wall,keptNanos_eq,timestampTime_wall hf.1 hf.2 (by split <;> omega),storedTime_wall]
    apply ext
    · simp only [milli,wall]
      omega
    · simp only [milli,wall]
      split <;> omega
    · rfl
  · rw [timestampParts_ltz,keptNanos_eq,timestampTime_ltz hf.1 hf.2 (by split <;> omega),storedTime_ltz]
    apply ext
    · simp only [milli]
      omega
    · simp only [milli]
      split <;> omega
    · rfl

theorem timestampParts_nanos_le (kind : DataType) (t : Time) :
    (timestampParts kind t).2.toNat ≤ 999999 ∧ (timestampParts kind t).2.toInt ≤ 999999 := by
  have hbv : ∀ n : Nat, n < 1000000 → (BitVec.ofInt 32 n).toNat ≤ 999999 ∧ (BitVec.ofInt 32 n).toInt ≤ 999999 := by
    intro n hn
    refine ⟨?_,?_⟩
    · rw [BitVec.ofInt_natCast,BitVec.toNat_ofNat]
      omega
    · rw [toInt_ofInt_32 (by omega) (by omega)]
      omega
  unfold timestampParts
  split
  · exact hbv (t.nsec % 1000000) (by omega)
  · dsimp only
    rw [nanoOfDay_tmod]
    exact hbv _ (by omega)

theorem temporalInt_storedTime (hk : kind = .date ∨ kind = .time) (precision : Int)
    (t : Time) : temporalInt kind (storedTime kind precision t) = temporalInt kind t := by
  rcases hk with rfl | rfl
  · simp only [temporalInt,storedTime,if_true,epochDay_midnight]
  have h0 := t.secondOfDay_nonneg
  have h1 := t.secondOfDay_lt
  have h2 := t.nsec_lt
  simp only [temporalInt,reduceCtorEq,if_false,nanoOfDay_tdiv]
  congr 1
  simp only [storedTime,unix]
  rw [secondOfDay,secondsPerDay]
  dsimp only
  omega

theorem timestampParts_storedTime (hk : kind = .timestamp ∨ kind = .timestampLTZ) (precision : Int) (t : Time) :
    timestampParts kind (storedTime kind precision t) =
      ((timestampParts kind t).1, keptNanos precision (timestampParts kind t).2) := by
  rcases hk with rfl | rfl
  · rw [timestampParts_wall,timestampParts_wall,keptNanos_eq,storedTime_wall]
    simp only [milli,wall]
    congr 2 <;> split <;> omega
  · rw [timestampParts_ltz,timestampParts_ltz,keptNanos_eq,storedTime_ltz]
    simp only [milli]
    congr 2 <;> split <;> omega
end FlussGo
