import Mathlib

set_option autoImplicit false

namespace Rockets

/-- The content of a `std::string`: any bytes, compared as unsigned characters. -/
abbrev Bytes := List (Fin 256)

/-- Shared by the literals of bytes. -/
instance instNeZeroByte : NeZero 256 := ⟨by decide⟩

/-- A string literal of the source; all of them are plain ASCII. -/
def ascii (s : String) : Bytes := s.toList.map fun c => Fin.ofNat 256 c.toNat

end Rockets
