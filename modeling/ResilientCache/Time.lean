/-!
# Durations and clock readings

A `Duration` is a span of time with nanosecond resolution; an `Instant` is the reading of a
64-bit millisecond clock. Two operations join them, and they treat overflow differently:

* `Instant.advance` moves a clock, which wraps around at 2^64;
* `Instant.deadline` computes when something written now stops being live, which saturates at
  the last instant and is absent for `Duration.max`, the span that never ends.

Both use whole milliseconds only, so a span under a millisecond is not zero but adds nothing.

Headlines: `deadline_eq_none_iff` and `le_of_deadline`.
-/

namespace ResilientCache

/-! ## Durations -/

/-- A span of time, at most `2^64 - 1` seconds and `999999999` nanoseconds. -/
structure Duration where
  /-- The whole span in nanoseconds. -/
  nanos : Nat
  bounded : nanos < UInt64.size * 1000000000
deriving DecidableEq

namespace Duration

/-- The empty span. -/
def zero : Duration := ⟨0, by decide⟩

/-- The longest span, which stands for "never ends". -/
def max : Duration := ⟨UInt64.size * 1000000000 - 1, by decide⟩

/-- A span of whole seconds and a fraction of one, in nanoseconds. -/
def ofParts (seconds : UInt64) (fraction : Fin 1000000000) : Duration where
  nanos := seconds.toNat * 1000000000 + fraction
  bounded := by have := seconds.toNat_lt_size; have := fraction.isLt; omega

/-- A span of whole milliseconds. -/
def ofMillis (count : UInt64) : Duration where
  nanos := count.toNat * 1000000
  bounded := by have := count.toNat_lt_size; omega

/-- The whole seconds of a span. -/
def seconds (d : Duration) : Nat := d.nanos / 1000000000

/-- What is left of a span after its whole seconds, in nanoseconds. -/
def fraction (d : Duration) : Nat := d.nanos % 1000000000

/-- The whole milliseconds of a span. -/
def millis (d : Duration) : Nat := d.nanos / 1000000

@[simp] theorem millis_zero : zero.millis = 0 := rfl

@[simp] theorem millis_ofMillis (count : UInt64) : (ofMillis count).millis = count.toNat := by
  simp [millis, ofMillis]

end Duration

/-! ## Clock readings -/

/-- The reading of a clock that counts milliseconds in 64 bits. -/
abbrev Instant := UInt64

/-- A way to move a clock by hand. -/
inductive ClockMove
  /-- Let a span pass. -/
  | advance (span : Duration)
  /-- Set the clock to a reading. -/
  | set (t : Instant)

namespace Instant

/-- The clock after a span has passed: whole milliseconds are added modulo 2^64. -/
def advance (now : Instant) (span : Duration) : Instant := now + UInt64.ofNat span.millis

/-- The clock after it was moved by hand. -/
def move (now : Instant) : ClockMove → Instant
  | .advance span => now.advance span
  | .set t => t

/-- The readings of a clock that is moved again and again, the first one included. -/
def readings (now : Instant) : List ClockMove → List Instant
  | [] => [now]
  | m :: rest => now :: (now.move m).readings rest

/-- A number of milliseconds after a reading, or the last reading if that is past it. -/
def plus (now : Instant) (millis : Nat) : Instant :=
  UInt64.ofNat (min (now.toNat + millis) (UInt64.size - 1))

/-- When something written `now` with lifetime `ttl` stops being live; `none` means never. -/
def deadline (now : Instant) (ttl : Duration) : Option Instant :=
  if ttl = .max then none else some (now.plus ttl.millis)

theorem toNat_plus (now : Instant) (millis : Nat) :
    (now.plus millis).toNat = min (now.toNat + millis) (UInt64.size - 1) :=
  UInt64.toNat_ofNat_of_lt' (by simp only [UInt64.size]; omega)

theorem deadline_eq_none_iff {now : Instant} {ttl : Duration} :
    now.deadline ttl = none ↔ ttl = .max := by
  unfold deadline
  split <;> simp_all

/-- A deadline is never before the moment it was computed at. -/
theorem le_of_deadline {now t : Instant} {ttl : Duration} (h : now.deadline ttl = some t) :
    now ≤ t := by
  unfold deadline at h
  split at h
  · cases h
  · cases h
    rw [UInt64.le_iff_toNat_le, toNat_plus]
    have := now.toNat_lt_size
    omega

end Instant

end ResilientCache
