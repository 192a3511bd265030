/-!
Powers and sums of natural numbers are the core library's own, also where algebraic
structures that bring theirs are imported.
-/

attribute [instance (high), default_instance high] instPowNat
attribute [instance (high)] Zero.ofOfNat0
