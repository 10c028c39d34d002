/-! Powers with natural exponents are those of the core library, also where another library brings
its own. -/

attribute [instance (2000), default_instance 20000] instPowNat
