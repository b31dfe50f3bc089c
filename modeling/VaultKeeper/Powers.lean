/-! # Powers

Bounds and scales are powers of numbers. They are written with the power of the core library, so
that a bound is the same whatever else is imported where it is used.
-/

attribute [instance (high), default_instance (high + 1)] instPowNat
