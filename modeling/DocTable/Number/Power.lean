/-!
# Powers

The powers of the library are those of natural exponents that the core library defines.  A theory that
is imported beside the library may have powers of its own, so the modules that use powers take
`Number.corePower` for an instance: their definitions are then the same terms whatever is imported.
-/

namespace DocTable.Number

set_option autoImplicit false

/-- Powers with natural exponents, as the core library has them. -/
@[reducible] def corePower {M : Type} [NatPow M] : Pow M Nat := instPowNat

end DocTable.Number
